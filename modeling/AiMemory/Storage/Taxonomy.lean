import AiMemory.Library.SortOn
import AiMemory.Visibility.Clause
import Mathlib.Data.Prod.Lex
import Mathlib.Data.String.Basic

/-
This file proves that the taxonomy counts the live memories below each namespace that it shows.
-/

namespace AiMemory.Storage
open AiMemory.Crdt AiMemory.Library AiMemory.Machine AiMemory.Visibility

section Tree

inductive TaxonomyNode where
  | node («namespace» name : String) (count subtreeCount : Nat) (children : List TaxonomyNode)

namespace TaxonomyNode

def «namespace» : TaxonomyNode → String
  | node «namespace» _ _ _ _ => «namespace»

def name : TaxonomyNode → String
  | node _ name _ _ _ => name

def count : TaxonomyNode → Nat
  | node _ _ count _ _ => count

def subtreeCount : TaxonomyNode → Nat
  | node _ _ _ subtreeCount _ => subtreeCount

def children : TaxonomyNode → List TaxonomyNode
  | node _ _ _ _ children => children

def fresh («namespace» name : String) : TaxonomyNode := node «namespace» name 0 0 []

/-- A visit adds to the subtree, and to the node itself when the namespace ends there. -/
def bump (added : Nat) (endsHere : Bool) : TaxonomyNode → TaxonomyNode
  | node «namespace» name count subtreeCount children =>
      node «namespace» name (if endsHere then count + added else count) (subtreeCount + added) children

def withChildren (children : List TaxonomyNode) : TaxonomyNode → TaxonomyNode
  | node «namespace» name count subtreeCount _ => node «namespace» name count subtreeCount children

end TaxonomyNode

structure Taxonomy where
  tree : TaxonomyNode
  totalCount : Nat
  truncated : Bool

/-- The cursor moves to the child of a segment, which is made when it is missing. -/
def visitChild (seg path : String) (visit : TaxonomyNode → TaxonomyNode) (children : List TaxonomyNode) :
    List TaxonomyNode :=
  match children.findIdx? fun child => child.name = seg with
  | some idx => children.modify idx visit
  | none => children ++ [visit (.fresh path seg)]

/-- The first segment of a path takes no slash. -/
def extendPath (pathSoFar seg : String) : String := if pathSoFar = "" then seg else pathSoFar ++ "/" ++ seg

/-- The cursor goes down the used segments and adds the rows of the group on its way. -/
def descend (added : Nat) (exactMatchInView : Bool) : List String → String → TaxonomyNode → TaxonomyNode
  | [], _, node => node
  | seg :: rest, pathSoFar, node =>
      let path := extendPath pathSoFar seg
      node.withChildren (visitChild seg path
        (fun child => descend added exactMatchInView rest path (child.bump added (rest.isEmpty && exactMatchInView)))
        node.children)

def splitSegments (text : List Char) : List String := (text.splitOn '/').map String.ofList

/-- The segments below the prefix, unless the namespace only resembles it. -/
def segmentsBelow (rootPath «namespace» : String) : Option (List String) :=
  let suffix :=
    if rootPath = "" then some «namespace».toList
    else if «namespace» = rootPath then some []
    else
      match «namespace».toList.drop rootPath.toList.length with
      | '/' :: letter :: rest => if rootPath.toList <+: «namespace».toList then some (letter :: rest) else none
      | _ => none
  suffix.map fun suffix => if suffix = [] then [] else splitSegments suffix

/-- A depth that cuts every segment off leaves the group to the root. -/
def foldTaxonomyGroup (rootPath : String) (effectiveDepth : Nat) (root : TaxonomyNode) (group : String × Nat) :
    TaxonomyNode :=
  match segmentsBelow rootPath group.1 with
  | none => root
  | some allSegments =>
      let used := allSegments.take effectiveDepth
      descend group.2 (used.length = allSegments.length) used rootPath (root.bump group.2 used.isEmpty)

mutual

/-- A child keeps its name when its own children are sorted, so the order of the two sorts does not matter. -/
def sortTaxonomy : TaxonomyNode → TaxonomyNode
  | .node «namespace» name count subtreeCount children =>
      .node «namespace» name count subtreeCount
        ((sortEach children).insertionSort fun first second => first.name ≤ second.name)

def sortEach : List TaxonomyNode → List TaxonomyNode
  | [] => []
  | child :: rest => sortTaxonomy child :: sortEach rest

end

def rootName (rootPath : String) : String := (splitSegments rootPath.toList).getLastD ""

def foldTaxonomyGroups (rootPath : String) (effectiveDepth totalCount : Nat) (truncated : Bool)
    (groups : List (String × Nat)) : Taxonomy where
  tree := sortTaxonomy (groups.foldl (foldTaxonomyGroup rootPath effectiveDepth) (.fresh rootPath (rootName rootPath)))
  totalCount
  truncated

end Tree

section Query

def taxonomyMaxLimit : Nat := 10000
def maxNamespaceDepth : Nat := 8

def escapeLike (text : List Char) : List Char :=
  sqlReplace '_' ['\\', '_'] (sqlReplace '%' ['\\', '%'] (sqlReplace '\\' ['\\', '\\'] text))

def descendantPattern (rootPath : String) : List Char := escapeLike rootPath.toList ++ ['/', '%']

/-- The rows that have not expired under a prefix. -/
def taxonomyRows (store : Store) (rootPath now : String) : List Memory :=
  store.memories.rows.filter fun row =>
    row.expiresAt.all (fun expiresAt => now < expiresAt) &&
      (rootPath = "" || row.namespace = rootPath || like row.namespace (descendantPattern rootPath))

/-- The densest namespaces come first, and equals in the order of their names. -/
def groupByNamespace (rows : List Memory) : List (String × Nat) :=
  ((rows.map (·.namespace)).dedup.map fun «namespace» =>
    («namespace», rows.countP fun row => row.namespace = «namespace»)).insertionSort
      fun first second => toLex (-(first.2 : Int), first.1) ≤ toLex (-(second.2 : Int), second.1)

def getTaxonomy (chrono : Chrono) (store : Store) (namespacePrefix : Option String) (maxDepth limit : Nat)
    (now : chrono.Instant) : Taxonomy :=
  let rootPath := namespacePrefix.getD ""
  let rows := taxonomyRows store rootPath (chrono.toRfc3339 now)
  let groups := (groupByNamespace rows).take (min limit taxonomyMaxLimit)
  let walkedCount := (groups.map Prod.snd).sum
  foldTaxonomyGroups rootPath (min maxDepth maxNamespaceDepth) rows.length (walkedCount < rows.length) groups

end Query

section Find

/-- The fields of a node without its children. -/
structure NodeLabel where
  «namespace» : String
  name : String
  count : Nat
  subtreeCount : Nat
  deriving DecidableEq

namespace TaxonomyNode

def label (node : TaxonomyNode) : NodeLabel := ⟨node.namespace, node.name, node.count, node.subtreeCount⟩

/-- The node that a path of names leads to. -/
def find : List String → TaxonomyNode → Option TaxonomyNode
  | [], reached => some reached
  | seg :: rest, parent => (parent.children.find? fun child => child.name = seg).bind (find rest)

@[simp] theorem children_withChildren (children : List TaxonomyNode) (node : TaxonomyNode) :
    (node.withChildren children).children = children := by
  cases node
  rfl

@[simp] theorem label_withChildren (children : List TaxonomyNode) (node : TaxonomyNode) :
    (node.withChildren children).label = node.label := by
  cases node
  rfl

@[simp] theorem children_bump (added : Nat) (endsHere : Bool) (node : TaxonomyNode) :
    (node.bump added endsHere).children = node.children := by
  cases node
  rfl

/-- A bump adds to the counts of the label. -/
theorem label_bump (added : Nat) (endsHere : Bool) (node : TaxonomyNode) :
    (node.bump added endsHere).label =
      { node.label with
        count := if endsHere then node.label.count + added else node.label.count
        subtreeCount := node.label.subtreeCount + added } := by
  cases node
  rfl

theorem name_eq_label (node : TaxonomyNode) : node.name = node.label.name := rfl

/-- Below the root only the children are searched. -/
theorem find_congr {first second : TaxonomyNode} (same : first.children = second.children) {path : List String}
    (below : path ≠ []) : first.find path = second.find path := by
  cases path with
  | nil => exact absurd rfl below
  | cons seg rest => rw [find, find, same]

end TaxonomyNode

section Children

variable {seg path : String} {visit : TaxonomyNode → TaxonomyNode} {child : TaxonomyNode}
  {children : List TaxonomyNode}

theorem visitChild_nil : visitChild seg path visit [] = [visit (.fresh path seg)] := rfl

/-- A visit goes to the first child of the segment. -/
theorem visitChild_cons :
    visitChild seg path visit (child :: children) =
      if child.name = seg then visit child :: children else child :: visitChild seg path visit children := by
  unfold visitChild
  rw [List.findIdx?_cons]
  by_cases here : child.name = seg
  · simp [here]
  · simp only [here, decide_false, Bool.false_eq_true, if_false]
    cases children.findIdx? fun child => child.name = seg with
    | none => rfl
    | some idx => rfl

/-- A visit is seen at its own child and at no other. -/
theorem find?_visitChild (keepsName : ∀ node, (visit node).name = node.name) (query : String) :
    (visitChild seg path visit children).find? (fun child => child.name = query) =
      if query = seg then
        some (visit ((children.find? fun child => child.name = seg).getD (.fresh path seg)))
      else children.find? fun child => child.name = query := by
  have freshName : (TaxonomyNode.fresh path seg).name = seg := rfl
  induction children with
  | nil =>
      rw [visitChild_nil, List.find?_cons, keepsName, freshName]
      by_cases own : query = seg
      · simp [own]
      · simp [own, Ne.symm own]
  | cons child children ih =>
      rw [visitChild_cons]
      by_cases here : child.name = seg
      · rw [if_pos here, List.find?_cons, keepsName, here]
        by_cases own : query = seg
        · simp [own, here]
        · simp [own, Ne.symm own, here]
      · rw [if_neg here, List.find?_cons, ih]
        by_cases own : query = seg
        · simp [own, here]
        · rw [if_neg own, if_neg own, List.find?_cons]

theorem mem_names_visitChild (keepsName : ∀ node, (visit node).name = node.name) {name : String}
    (present : name ∈ (visitChild seg path visit children).map (·.name)) :
    name = seg ∨ name ∈ children.map (·.name) := by
  have freshName : (TaxonomyNode.fresh path seg).name = seg := rfl
  induction children with
  | nil =>
      rw [visitChild_nil, List.map_singleton, keepsName, freshName, List.mem_singleton] at present
      exact .inl present
  | cons child children ih =>
      rw [visitChild_cons] at present
      split at present
      · simp only [List.map_cons, keepsName] at present
        exact .inr present
      · rw [List.map_cons, List.mem_cons] at present
        rcases present with rfl | later
        · exact .inr List.mem_cons_self
        · exact (ih later).imp_right (List.mem_cons_of_mem _)

/-- No two children have one name after a visit. -/
theorem nodup_visitChild (keepsName : ∀ node, (visit node).name = node.name)
    (distinct : (children.map (·.name)).Nodup) : ((visitChild seg path visit children).map (·.name)).Nodup := by
  induction children with
  | nil => exact List.nodup_singleton _
  | cons child children ih =>
      obtain ⟨apart, distinct⟩ := List.nodup_cons.mp distinct
      rw [visitChild_cons]
      split
      · rw [List.map_cons, keepsName]
        exact List.nodup_cons.mpr ⟨apart, distinct⟩
      · rename_i other
        refine List.nodup_cons.mpr ⟨fun again => ?_, ih distinct⟩
        exact (mem_names_visitChild keepsName again).elim other apart

end Children

section Descent

variable {added : Nat} {exactMatchInView : Bool}

theorem label_descend (segs : List String) (base : String) (node : TaxonomyNode) :
    (descend added exactMatchInView segs base node).label = node.label := by
  cases segs with
  | nil => rfl
  | cons seg rest => exact TaxonomyNode.label_withChildren _ _

/-- The label that a node has before its first visit. -/
def freshLabel : String → String → List String → NodeLabel
  | base, name, [] => ⟨base, name, 0, 0⟩
  | base, _, seg :: rest => freshLabel (extendPath base seg) seg rest

theorem counts_freshLabel (base name : String) (path : List String) :
    (freshLabel base name path).count = 0 ∧ (freshLabel base name path).subtreeCount = 0 := by
  induction path generalizing base name with
  | nil => exact ⟨rfl, rfl⟩
  | cons seg rest ih => exact ih _ _

def NodeLabel.bump (added : Nat) (endsHere : Bool) (label : NodeLabel) : NodeLabel :=
  { label with
    count := if endsHere then label.count + added else label.count
    subtreeCount := label.subtreeCount + added }

def labelAt (path : List String) (node : TaxonomyNode) : Option NodeLabel := (node.find path).map (·.label)

theorem labelAt_nil (node : TaxonomyNode) : labelAt [] node = some node.label := rfl

/-- The label below a node is that of the child on the way. -/
theorem labelAt_cons (seg : String) (rest : List String) (node : TaxonomyNode) :
    labelAt (seg :: rest) node = (node.children.find? fun child => child.name = seg).bind (labelAt rest) := by
  rw [labelAt, TaxonomyNode.find, Option.map_bind]
  rfl

/-- The descent is seen exactly at the nodes on its way. -/
theorem labelAt_descend (segs : List String) (base : String) (node : TaxonomyNode) {path : List String}
    (below : path ≠ []) :
    labelAt path (descend added exactMatchInView segs base node) =
      if path <+: segs then
        some (((labelAt path node).getD (freshLabel base "" path)).bump added (path = segs ∧ exactMatchInView))
      else labelAt path node := by
  induction segs generalizing base node path with
  | nil =>
      have apart : ¬ path <+: [] := fun inside => below (List.prefix_nil.mp inside)
      rw [if_neg apart]
      rfl
  | cons seg rest ih =>
      obtain ⟨query, later, rfl⟩ := List.exists_cons_of_ne_nil below
      have keepsName : ∀ child : TaxonomyNode, (descend added exactMatchInView rest (extendPath base seg)
          (child.bump added (rest.isEmpty && exactMatchInView))).name = child.name := by
        intro child
        rw [TaxonomyNode.name_eq_label, label_descend, TaxonomyNode.label_bump]
        rfl
      rw [descend, labelAt_cons, TaxonomyNode.children_withChildren, find?_visitChild keepsName, labelAt_cons]
      by_cases own : query = seg
      · subst own
        simp only [if_true, Option.bind_some, List.cons_prefix_cons, true_and]
        cases later with
        | nil =>
            rw [labelAt_nil, label_descend, TaxonomyNode.label_bump, if_pos List.nil_prefix]
            have last : (rest.isEmpty && exactMatchInView) = decide ([query] = query :: rest ∧ exactMatchInView) := by
              cases rest <;> simp
            rw [last]
            cases node.children.find? fun child => child.name = query with
            | none => rfl
            | some child => rfl
        | cons next later =>
            have same : ∀ child : TaxonomyNode, labelAt (next :: later)
                (child.bump added (rest.isEmpty && exactMatchInView)) = labelAt (next :: later) child := by
              intro child
              rw [labelAt_cons, labelAt_cons, TaxonomyNode.children_bump]
            rw [ih _ _ (by simp), same]
            have whole : (query :: next :: later = query :: rest) ↔ (next :: later = rest) := by simp
            simp only [whole]
            cases node.children.find? fun child => child.name = query with
            | none => rfl
            | some child => rfl
      · have apart : ¬ query :: later <+: seg :: rest := by
          rw [List.cons_prefix_cons]
          exact fun both => own both.1
        rw [if_neg own, if_neg apart]

end Descent
section Groups

variable (rootPath : String) (effectiveDepth : Nat)

/-- The namespace lies at the path or below it, as far as the depth shows. -/
def shows (path : List String) («namespace» : String) : Bool :=
  (segmentsBelow rootPath «namespace»).any fun segs => path <+: segs.take effectiveDepth

/-- The namespace is the path itself, or the depth leaves it to the root. -/
def endsAt (path : List String) («namespace» : String) : Bool :=
  (segmentsBelow rootPath «namespace»).any fun segs =>
    path = segs.take effectiveDepth ∧ (segs.take effectiveDepth = segs ∨ path = [])

def total (test : String → Bool) (groups : List (String × Nat)) : Nat :=
  ((groups.filter fun group => test group.1).map Prod.snd).sum

def NodeLabel.tally (path : List String) (groups : List (String × Nat)) (label : NodeLabel) : NodeLabel :=
  { label with
    count := label.count + total (endsAt rootPath effectiveDepth path) groups
    subtreeCount := label.subtreeCount + total (shows rootPath effectiveDepth path) groups }

variable {rootPath effectiveDepth} {path : List String}

theorem shows_of_endsAt {«namespace» : String} (ends : endsAt rootPath effectiveDepth path «namespace» = true) :
    shows rootPath effectiveDepth path «namespace» = true := by
  unfold endsAt at ends
  unfold shows
  cases below : segmentsBelow rootPath «namespace» with
  | none =>
      rw [below] at ends
      cases ends
  | some segs =>
      rw [below, Option.any_some, decide_eq_true_eq] at ends
      rw [Option.any_some, decide_eq_true_eq]
      exact ends.1 ▸ List.prefix_refl _

/-- A group is seen at the nodes that show its namespace. -/
theorem labelAt_foldTaxonomyGroup (root : TaxonomyNode) (group : String × Nat) :
    labelAt path (foldTaxonomyGroup rootPath effectiveDepth root group) =
      if shows rootPath effectiveDepth path group.1 then
        some (((labelAt path root).getD (freshLabel rootPath "" path)).bump group.2
          (endsAt rootPath effectiveDepth path group.1))
      else labelAt path root := by
  unfold foldTaxonomyGroup shows endsAt
  cases segmentsBelow rootPath group.1 with
  | none => rfl
  | some segs =>
      simp only [Option.any_some, decide_eq_true_eq]
      by_cases below : path = []
      · subst below
        have atRoot : ((segs.take effectiveDepth).isEmpty = true) ↔ [] = segs.take effectiveDepth := by
          rw [List.isEmpty_iff, eq_comm]
        rw [labelAt_nil, label_descend, TaxonomyNode.label_bump, if_pos List.nil_prefix, labelAt_nil]
        simp only [atRoot, or_true, and_true, Option.getD_some, NodeLabel.bump, decide_eq_true_eq]
      · have kept : labelAt path (root.bump group.2 (segs.take effectiveDepth).isEmpty) = labelAt path root := by
          rw [labelAt, labelAt, TaxonomyNode.find_congr (TaxonomyNode.children_bump _ _ _) below]
        have whole : (segs.take effectiveDepth).length = segs.length ↔ segs.take effectiveDepth = segs :=
          ⟨List.IsPrefix.eq_of_length (List.take_prefix _ _), fun same => by rw [same]⟩
        rw [labelAt_descend _ _ _ below, kept]
        simp only [decide_eq_true_eq, whole, below, or_false]

theorem total_cons (test : String → Bool) (group : String × Nat) (groups : List (String × Nat)) :
    total test (group :: groups) = (if test group.1 then group.2 else 0) + total test groups := by
  unfold total
  rw [List.filter_cons]
  split <;> simp

/-- Groups that fail the test add nothing to the total. -/
theorem total_eq_zero {test : String → Bool} {groups : List (String × Nat)}
    (unseen : ∀ group ∈ groups, test group.1 = false) : total test groups = 0 := by
  have nothing : (groups.filter fun group => test group.1) = [] :=
    List.filter_eq_nil_iff.mpr fun group present => Bool.eq_false_iff.mp (unseen group present)
  rw [total, nothing]
  rfl

/-- Groups that are not shown add nothing. -/
theorem tally_of_unshown {groups : List (String × Nat)}
    (unshown : ∀ group ∈ groups, shows rootPath effectiveDepth path group.1 = false) (label : NodeLabel) :
    label.tally rootPath effectiveDepth path groups = label := by
  have unended : ∀ group ∈ groups, endsAt rootPath effectiveDepth path group.1 = false := fun group present =>
    Bool.eq_false_iff.mpr fun ends => Bool.eq_false_iff.mp (unshown group present) (shows_of_endsAt ends)
  rw [NodeLabel.tally, total_eq_zero unshown, total_eq_zero unended]
  rfl

/-- A group that is shown is added first. -/
theorem bump_tally {group : String × Nat} (shown : shows rootPath effectiveDepth path group.1 = true)
    (groups : List (String × Nat)) (label : NodeLabel) :
    (label.bump group.2 (endsAt rootPath effectiveDepth path group.1)).tally rootPath effectiveDepth path groups =
      label.tally rootPath effectiveDepth path (group :: groups) := by
  rw [NodeLabel.tally, NodeLabel.tally, total_cons, total_cons, shown, NodeLabel.bump]
  cases endsAt rootPath effectiveDepth path group.1 <;> simp [Nat.add_assoc]

/-- The walk over the groups adds them up at every node that shows one of them. -/
theorem labelAt_foldTaxonomyGroups (root : TaxonomyNode) (groups : List (String × Nat)) :
    labelAt path (groups.foldl (foldTaxonomyGroup rootPath effectiveDepth) root) =
      if groups.any fun group => shows rootPath effectiveDepth path group.1 then
        some (((labelAt path root).getD (freshLabel rootPath "" path)).tally rootPath effectiveDepth path groups)
      else labelAt path root := by
  induction groups generalizing root with
  | nil => rfl
  | cons group groups ih =>
      rw [List.foldl_cons, ih, labelAt_foldTaxonomyGroup, List.any_cons]
      by_cases shown : shows rootPath effectiveDepth path group.1 = true
      · rw [← bump_tally shown]
        simp only [shown, if_true, Bool.true_or, Option.getD_some]
        split
        · rfl
        · rename_i others
          rw [Bool.not_eq_true, List.any_eq_false] at others
          rw [tally_of_unshown fun group present => Bool.eq_false_iff.mpr (others group present)]
      · have unended : endsAt rootPath effectiveDepth path group.1 = false :=
          Bool.eq_false_iff.mpr fun ends => shown (shows_of_endsAt ends)
        rw [Bool.not_eq_true] at shown
        simp only [shown, Bool.false_or, Bool.false_eq_true, if_false, NodeLabel.tally, total_cons, unended,
          Nat.zero_add]

end Groups

section Distinct

namespace TaxonomyNode

/-- No node has two children of one name. -/
def Distinct (root : TaxonomyNode) : Prop :=
  ∀ path reached, root.find path = some reached → (reached.children.map (·.name)).Nodup

/-- A node is distinct exactly when its children have different names and are distinct. -/
theorem distinct_iff {root : TaxonomyNode} :
    root.Distinct ↔ (root.children.map (·.name)).Nodup ∧
      ∀ seg child, root.children.find? (fun child => child.name = seg) = some child → child.Distinct := by
  constructor
  · intro distinct
    refine ⟨distinct [] root rfl, fun seg child present path reached found => ?_⟩
    refine distinct (seg :: path) reached ?_
    rw [find, present]
    exact found
  · rintro ⟨names, below⟩ path reached found
    cases path with
    | nil =>
        obtain rfl := Option.some.inj found
        exact names
    | cons seg rest =>
        obtain ⟨child, present, found⟩ := Option.bind_eq_some_iff.mp found
        exact below seg child present rest reached found

theorem distinct_fresh («namespace» name : String) : (fresh «namespace» name).Distinct :=
  distinct_iff.mpr ⟨List.nodup_nil, fun _ _ absent => nomatch absent⟩

theorem distinct_congr {first second : TaxonomyNode} (same : first.children = second.children) :
    first.Distinct ↔ second.Distinct := by
  rw [distinct_iff, distinct_iff, same]

end TaxonomyNode

open TaxonomyNode

/-- A descent keeps a tree distinct. -/
theorem distinct_descend {added : Nat} {exactMatchInView : Bool} (segs : List String) (base : String)
    {node : TaxonomyNode} (distinct : node.Distinct) : (descend added exactMatchInView segs base node).Distinct := by
  induction segs generalizing base node with
  | nil => exact distinct
  | cons seg rest ih =>
      obtain ⟨names, below⟩ := distinct_iff.mp distinct
      have keepsName : ∀ child : TaxonomyNode, (descend added exactMatchInView rest (extendPath base seg)
          (child.bump added (rest.isEmpty && exactMatchInView))).name = child.name := by
        intro child
        rw [name_eq_label, label_descend, label_bump]
        rfl
      rw [descend, distinct_iff, children_withChildren]
      refine ⟨nodup_visitChild keepsName names, fun query child present => ?_⟩
      rw [find?_visitChild keepsName] at present
      split at present
      · obtain rfl := Option.some.inj present
        refine ih _ ((distinct_congr (children_bump _ _ _)).mpr ?_)
        cases found : node.children.find? fun child => child.name = seg with
        | none => exact distinct_fresh _ _
        | some child => exact below seg child found
      · exact below query child present

/-- The folded groups keep a tree distinct. -/
theorem distinct_foldTaxonomyGroups (rootPath : String) (effectiveDepth : Nat) (groups : List (String × Nat))
    {root : TaxonomyNode} (distinct : root.Distinct) :
    (groups.foldl (foldTaxonomyGroup rootPath effectiveDepth) root).Distinct := by
  induction groups generalizing root with
  | nil => exact distinct
  | cons group groups ih =>
      refine ih ?_
      unfold foldTaxonomyGroup
      split
      · exact distinct
      · exact distinct_descend _ _ ((distinct_congr (children_bump _ _ _)).mpr distinct)

theorem sortEach_eq_map (children : List TaxonomyNode) : sortEach children = children.map sortTaxonomy := by
  induction children with
  | nil => rfl
  | cons child children ih => rw [sortEach, ih, List.map_cons]

theorem label_sortTaxonomy (node : TaxonomyNode) : (sortTaxonomy node).label = node.label := by
  cases node
  rw [sortTaxonomy]
  rfl

theorem children_sortTaxonomy (node : TaxonomyNode) :
    (sortTaxonomy node).children =
      (node.children.map sortTaxonomy).insertionSort fun first second => first.name ≤ second.name := by
  cases node
  rw [sortTaxonomy, sortEach_eq_map]
  rfl

theorem names_sortTaxonomy (children : List TaxonomyNode) :
    (children.map sortTaxonomy).map (·.name) = children.map (·.name) := by
  rw [List.map_map]
  refine List.map_congr_left fun child _ => ?_
  show (sortTaxonomy child).label.name = child.label.name
  rw [label_sortTaxonomy]

/-- The sort moves no node to another path. -/
theorem find_sortTaxonomy {root : TaxonomyNode} (distinct : root.Distinct) (path : List String) :
    (sortTaxonomy root).find path = (root.find path).map sortTaxonomy := by
  induction path generalizing root with
  | nil => rfl
  | cons seg rest ih =>
      obtain ⟨names, below⟩ := distinct_iff.mp distinct
      have arranged := List.perm_insertionSort (fun first second : TaxonomyNode => first.name ≤ second.name)
        (root.children.map sortTaxonomy)
      have sortedNames : ((sortTaxonomy root).children.map (·.name)).Nodup := by
        rw [children_sortTaxonomy, (arranged.map _).nodup_iff, names_sortTaxonomy]
        exact names
      have same : (sortTaxonomy root).children.find? (fun child => child.name = seg) =
          (root.children.find? fun child => child.name = seg).map sortTaxonomy := by
        ext child
        rw [KeyedTable.find?_key_iff sortedNames, children_sortTaxonomy, arranged.mem_iff, List.mem_map,
          Option.map_eq_some_iff]
        constructor
        · rintro ⟨⟨before, present, rfl⟩, named⟩
          refine ⟨before, (KeyedTable.find?_key_iff names _ _).mpr ⟨present, ?_⟩, rfl⟩
          rwa [name_eq_label, label_sortTaxonomy] at named
        · rintro ⟨before, present, rfl⟩
          obtain ⟨present, named⟩ := (KeyedTable.find?_key_iff names _ _).mp present
          refine ⟨⟨before, present, rfl⟩, ?_⟩
          rwa [name_eq_label, label_sortTaxonomy]
      rw [find, find, same]
      cases found : root.children.find? fun child => child.name = seg with
      | none => rfl
      | some child => exact ih (below seg child found)

/-- The sort keeps the label of every path of a distinct tree. -/
theorem labelAt_sortTaxonomy {root : TaxonomyNode} (distinct : root.Distinct) (path : List String) :
    labelAt path (sortTaxonomy root) = labelAt path root := by
  rw [labelAt, labelAt, find_sortTaxonomy distinct, Option.map_map]
  congr 1
  funext node
  exact label_sortTaxonomy node

theorem labelAt_fresh (rootPath name : String) (path : List String) :
    labelAt path (fresh rootPath name) = if path = [] then some ⟨rootPath, name, 0, 0⟩ else none := by
  cases path with
  | nil => rfl
  | cons seg rest => rfl

/-- The children of every node ascend by their names. -/
theorem ascending_sortTaxonomy {root : TaxonomyNode} (distinct : root.Distinct) {path : List String}
    {reached : TaxonomyNode} (found : (sortTaxonomy root).find path = some reached) :
    reached.children.Pairwise fun first second => first.name < second.name := by
  rw [find_sortTaxonomy distinct, Option.map_eq_some_iff] at found
  obtain ⟨before, found, rfl⟩ := found
  have names := distinct path before found
  have arranged := List.perm_insertionSort (fun first second : TaxonomyNode => first.name ≤ second.name)
    (before.children.map sortTaxonomy)
  have apart : ((sortTaxonomy before).children.map (·.name)).Nodup := by
    rw [children_sortTaxonomy, (arranged.map _).nodup_iff, names_sortTaxonomy]
    exact names
  have sorted := insertionSort_sorted TaxonomyNode.name (before.children.map sortTaxonomy)
  rw [← children_sortTaxonomy] at sorted
  exact (sorted.and (List.pairwise_map.mp apart)).imp fun both => lt_of_le_of_ne both.1 both.2

end Distinct
end Find

section Exact

/-- A letter is escaped when it is one of the marks. -/
theorem escapeLike_cons (letter : Char) (text : List Char) :
    escapeLike (letter :: text) =
      (if letter = '\\' ∨ letter = '%' ∨ letter = '_' then ['\\', letter] else [letter]) ++ escapeLike text := by
  have parts : escapeLike (letter :: text) = escapeLike [letter] ++ escapeLike text := by
    simp only [escapeLike, sqlReplace, List.flatMap_cons, List.flatMap_append, List.flatMap_nil, List.append_nil]
  rw [parts]
  congr 1
  by_cases escape : letter = '\\'
  · subst escape
    decide
  by_cases run : letter = '%'
  · subst run
    decide
  by_cases one : letter = '_'
  · subst one
    decide
  · simp [escapeLike, sqlReplace, escape, run, one]

/-- An escaped text is read back letter by letter. -/
theorem read_escapeLike (text rest : List Char) :
    sqlMarks.read (escapeLike text ++ rest) = text.map LikePart.exact ++ sqlMarks.read rest := by
  induction text with
  | nil => rfl
  | cons letter text ih =>
      rw [escapeLike_cons, List.append_assoc]
      by_cases marked : letter = '\\' ∨ letter = '%' ∨ letter = '_'
      · rw [if_pos marked, List.cons_append, List.cons_append, List.nil_append]
        show sqlMarks.read (sqlMarks.escape :: letter :: _) = _
        rw [LikeMarks.read_escape, ih, List.map_cons, List.cons_append]
      · rw [if_neg marked]
        rw [not_or, not_or] at marked
        rw [List.singleton_append, LikeMarks.read_plain sqlMarks marked.1, ih]
        simp [sqlMarks, marked.2.1, marked.2.2]

/-- The pattern ignores nothing but the case of the prefix. -/
theorem like_descendantPattern_iff (rootPath path : String) :
    like path (descendantPattern rootPath) = true ↔ CaseVariant rootPath path := by
  have slash : sqlMarks.read ['/', '%'] = [.exact '/', .run] := by decide
  have parts : sqlMarks.read (descendantPattern rootPath) =
      (rootPath ++ "/").toList.map LikePart.exact ++ [.run] := by
    rw [descendantPattern, read_escapeLike, slash, String.toList_append]
    simp
  rw [like, parts, likeMatch_start_iff, CaseVariant]

/-- The query selects the live rows of the root and below it. -/
theorem mem_taxonomyRows {store : Store} {rootPath now : String} {row : Memory} :
    row ∈ taxonomyRows store rootPath now ↔
      row ∈ store.memories.rows ∧ (∀ expiresAt ∈ row.expiresAt, now < expiresAt) ∧
      (rootPath = "" ∨ row.namespace = rootPath ∨ CaseVariant rootPath row.namespace) := by
  rw [taxonomyRows, List.mem_filter]
  have unexpired : (row.expiresAt.all fun expiresAt => now < expiresAt) = true ↔
      ∀ expiresAt ∈ row.expiresAt, now < expiresAt := by
    cases row.expiresAt <;> simp
  rw [Bool.and_eq_true, unexpired]
  simp only [Bool.or_eq_true, decide_eq_true_eq, like_descendantPattern_iff, or_assoc]

variable {rows : List Memory}

/-- The groups count the rows of each namespace once. -/
theorem perm_groupByNamespace (rows : List Memory) :
    (groupByNamespace rows).Perm ((rows.map (·.namespace)).dedup.map fun «namespace» =>
      («namespace», rows.countP fun row => row.namespace = «namespace»)) := List.perm_insertionSort _ _

theorem nodup_groupByNamespace (rows : List Memory) : ((groupByNamespace rows).map Prod.fst).Nodup := by
  rw [((perm_groupByNamespace rows).map _).nodup_iff, List.map_map]
  exact (List.nodup_dedup _).map fun _ _ same => same

/-- A group counts the rows of its namespace. -/
theorem mem_groupByNamespace {group : String × Nat} (present : group ∈ groupByNamespace rows) :
    (∃ row ∈ rows, row.namespace = group.1) ∧ group.2 = rows.countP fun row => row.namespace = group.1 := by
  obtain ⟨«namespace», listed, rfl⟩ := List.mem_map.mp ((perm_groupByNamespace rows).mem_iff.mp present)
  exact ⟨List.mem_map.mp (List.mem_dedup.mp listed), rfl⟩

/-- The rows of one more namespace are added to those of the others. -/
theorem countP_cons_namespace (test : String → Bool) {«namespace» : String} {others : List String}
    (apart : «namespace» ∉ others) (rows : List Memory) :
    (if test «namespace» then rows.countP fun row => row.namespace = «namespace» else 0) +
        rows.countP (fun row => row.namespace ∈ others ∧ test row.namespace) =
      rows.countP fun row => row.namespace ∈ «namespace» :: others ∧ test row.namespace := by
  induction rows with
  | nil => simp
  | cons row rows ih =>
      simp only [List.countP_cons, List.mem_cons, decide_eq_true_eq] at ih ⊢
      rw [← ih]
      by_cases own : row.namespace = «namespace»
      · rw [own]
        cases test «namespace» <;> simp [apart]
        omega
      · by_cases other : row.namespace ∈ others ∧ test row.namespace = true
        · simp [own, other.1, other.2]
          omega
        · cases test «namespace» <;> simp [own, other]

/-- Whole groups add up to the rows of their namespaces. -/
theorem total_eq_countP (test : String → Bool) {groups : List (String × Nat)}
    (distinct : (groups.map Prod.fst).Nodup)
    (counted : ∀ group ∈ groups, group.2 = rows.countP fun row => row.namespace = group.1) :
    total test groups = rows.countP fun row => row.namespace ∈ groups.map Prod.fst ∧ test row.namespace := by
  induction groups with
  | nil => simp [total]
  | cons group groups ih =>
      obtain ⟨apart, distinct⟩ := List.nodup_cons.mp distinct
      have rest := ih distinct fun other present => counted other (List.mem_cons_of_mem _ present)
      rw [total_cons, rest, counted group List.mem_cons_self, List.map_cons]
      exact countP_cons_namespace test apart rows

/-- The totals of the groups count the rows that the test selects. -/
theorem total_take_eq_countP (test : String → Bool) (limit : Nat) :
    total test ((groupByNamespace rows).take limit) =
      rows.countP fun row => row.namespace ∈ ((groupByNamespace rows).take limit).map Prod.fst ∧
        test row.namespace :=
  total_eq_countP test ((nodup_groupByNamespace rows).sublist ((List.take_sublist _ _).map _))
    fun _ present => (mem_groupByNamespace (List.mem_of_mem_take present)).2

/-- The namespaces that the limit leaves to the walk. -/
def walkedNamespaces (rows : List Memory) (limit : Nat) : List String :=
  ((groupByNamespace rows).take (min limit taxonomyMaxLimit)).map Prod.fst

/-- A walked namespace is shown exactly when one of its rows is. -/
theorem any_walked_iff (test : String → Bool) (limit : Nat) :
    (((groupByNamespace rows).take (min limit taxonomyMaxLimit)).any fun group => test group.1) = true ↔
      ∃ row ∈ rows, row.namespace ∈ walkedNamespaces rows limit ∧ test row.namespace = true := by
  rw [List.any_eq_true]
  constructor
  · rintro ⟨group, walked, passes⟩
    obtain ⟨row, present, same⟩ := (mem_groupByNamespace (List.mem_of_mem_take walked)).1
    exact ⟨row, present, same ▸ List.mem_map_of_mem walked, same ▸ passes⟩
  · rintro ⟨row, present, walked, passes⟩
    obtain ⟨group, listed, same⟩ := List.mem_map.mp walked
    exact ⟨group, listed, same ▸ passes⟩

/-- The walk misses a row exactly when its groups do not add up to all rows. -/
theorem walkedSum_lt_iff (limit : Nat) :
    (((groupByNamespace rows).take (min limit taxonomyMaxLimit)).map Prod.snd).sum < rows.length ↔
      ¬ ∀ row ∈ rows, row.namespace ∈ walkedNamespaces rows limit := by
  have whole := @total_take_eq_countP rows (fun _ => true) (min limit taxonomyMaxLimit)
  simp only [total, List.filter_true, and_true] at whole
  rw [whole, ← walkedNamespaces, lt_iff_le_and_ne, and_iff_right List.countP_le_length, Ne, List.countP_eq_length]
  simp only [decide_eq_true_eq]

/-- A namespace that the walk leaves out is no denser than a walked one. -/
theorem dense_walkedNamespaces {limit : Nat} {row : Memory} (present : row ∈ rows)
    (absent : row.namespace ∉ walkedNamespaces rows limit) :
    (walkedNamespaces rows limit).length = min limit taxonomyMaxLimit ∧
      ∀ other ∈ walkedNamespaces rows limit, (rows.countP fun row' => row'.namespace = row.namespace) ≤
        rows.countP fun row' => row'.namespace = other := by
  have grouped : (row.namespace, rows.countP fun row' => row'.namespace = row.namespace) ∈ groupByNamespace rows :=
    (perm_groupByNamespace rows).mem_iff.mpr
      (List.mem_map_of_mem (List.mem_dedup.mpr (List.mem_map_of_mem present)))
  have sorted := insertionSort_sorted (fun group : String × Nat => toLex (-(group.2 : Int), group.1))
    ((rows.map (·.namespace)).dedup.map fun «namespace» =>
      («namespace», rows.countP fun row => row.namespace = «namespace»))
  obtain ⟨full, denser⟩ := cut_of_not_mem_take sorted grouped fun taken => absent (List.mem_map_of_mem taken)
  refine ⟨?_, fun other walked => ?_⟩
  · rw [walkedNamespaces, List.length_map]
    exact full
  · obtain ⟨group, taken, rfl⟩ := List.mem_map.mp walked
    have order := (Prod.Lex.toLex_le_toLex.mp (denser group taken)).elim le_of_lt fun tie => le_of_eq tie.1
    rw [← (mem_groupByNamespace (List.mem_of_mem_take taken)).2]
    omega

theorem countP_eq_zero_of_walked {walked : List String} {test : String → Bool}
    (fails : ∀ row ∈ rows, row.namespace ∈ walked → test row.namespace ≠ true) :
    (rows.countP fun row => row.namespace ∈ walked ∧ test row.namespace) = 0 := by
  refine List.countP_eq_zero.mpr fun row present passes => ?_
  rw [decide_eq_true_eq] at passes
  exact fails row present passes.1 passes.2

/-- The taxonomy has exactly the nodes that a walked row makes visible, counts the rows at and below each of them,
lists the children of every node once and in order, and drops none but the sparsest namespaces. -/
theorem getTaxonomy_exact (chrono : Chrono) (store : Store) (namespacePrefix : Option String) (maxDepth limit : Nat)
    (now : chrono.Instant) :
    let rootPath := namespacePrefix.getD ""
    let depth := min maxDepth maxNamespaceDepth
    let rows := taxonomyRows store rootPath (chrono.toRfc3339 now)
    let walked := walkedNamespaces rows limit
    let taxonomy := getTaxonomy chrono store namespacePrefix maxDepth limit now
    (∀ row, row ∈ rows ↔
      row ∈ store.memories.rows ∧ (∀ expiresAt ∈ row.expiresAt, chrono.toRfc3339 now < expiresAt) ∧
        (rootPath = "" ∨ row.namespace = rootPath ∨ CaseVariant rootPath row.namespace)) ∧
      (∀ path, labelAt path taxonomy.tree =
        if path = [] ∨ ∃ row ∈ rows, row.namespace ∈ walked ∧ shows rootPath depth path row.namespace then
          some { freshLabel rootPath (rootName rootPath) path with
            count := rows.countP fun row => row.namespace ∈ walked ∧ endsAt rootPath depth path row.namespace
            subtreeCount := rows.countP fun row =>
              row.namespace ∈ walked ∧ shows rootPath depth path row.namespace }
        else none) ∧
      (∀ path reached, taxonomy.tree.find path = some reached →
        reached.children.Pairwise fun first second => first.name < second.name) ∧
      taxonomy.totalCount = rows.length ∧
      (taxonomy.truncated = false ↔ ∀ row ∈ rows, row.namespace ∈ walked) ∧
      ∀ row ∈ rows, row.namespace ∉ walked → walked.length = min limit taxonomyMaxLimit ∧
        ∀ other ∈ walked, (rows.countP fun row' => row'.namespace = row.namespace) ≤
          rows.countP fun row' => row'.namespace = other := by
  intro rootPath depth rows walked taxonomy
  let groups := (groupByNamespace rows).take (min limit taxonomyMaxLimit)
  let unsorted := groups.foldl (foldTaxonomyGroup rootPath depth) (.fresh rootPath (rootName rootPath))
  have distinct : unsorted.Distinct := distinct_foldTaxonomyGroups _ _ _ (TaxonomyNode.distinct_fresh _ _)
  refine ⟨fun _ => mem_taxonomyRows, fun path => ?_,
    fun path reached found => ascending_sortTaxonomy distinct found, rfl, ?_, ?_⟩
  · have moved : labelAt path taxonomy.tree = labelAt path unsorted := labelAt_sortTaxonomy distinct path
    have shown := @any_walked_iff rows (shows rootPath depth path) limit
    rw [moved, labelAt_foldTaxonomyGroups, labelAt_fresh]
    have label : ((if path = [] then some ⟨rootPath, rootName rootPath, 0, 0⟩ else none).getD
        (freshLabel rootPath "" path)) = freshLabel rootPath (rootName rootPath) path := by
      cases path <;> rfl
    obtain ⟨noCount, noSubtree⟩ := counts_freshLabel rootPath (rootName rootPath) path
    by_cases seen : groups.any (fun group => shows rootPath depth path group.1) = true
    · refine (if_pos seen).trans (Eq.trans ?_ (if_pos (.inr (shown.mp seen))).symm)
      rw [label, NodeLabel.tally, total_take_eq_countP, total_take_eq_countP, noCount, noSubtree, Nat.zero_add,
        Nat.zero_add]
      rfl
    · have unseen : ∀ row ∈ rows, row.namespace ∈ walked → shows rootPath depth path row.namespace ≠ true :=
        fun row present named passes => seen (shown.mpr ⟨row, present, named, passes⟩)
      rw [if_neg seen]
      by_cases top : path = []
      · subst top
        rw [if_pos rfl, if_pos (.inl rfl), countP_eq_zero_of_walked unseen,
          countP_eq_zero_of_walked fun row present named ends => unseen row present named (shows_of_endsAt ends)]
        rfl
      · rw [if_neg top, if_neg]
        rintro (root | ⟨row, present, named, passes⟩)
        · exact top root
        · exact unseen row present named passes
  · show decide _ = false ↔ _
    rw [decide_eq_false_iff_not, walkedSum_lt_iff, not_not]
  · exact fun row present absent => dense_walkedNamespaces present absent

end Exact
end AiMemory.Storage
