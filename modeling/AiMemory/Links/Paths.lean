import AiMemory.Federation.Catchup
import AiMemory.Links.Lineage

/-
This file embeds the two queries that follow the links: the paths between two memories and the graph below one.
-/

namespace AiMemory.Links
open AiMemory.Crdt AiMemory.Federation AiMemory.Library AiMemory.Machine AiMemory.Storage

section FindPaths

def findPathsDefaultLimit : Nat := 10

def findPathsMaxLimit : Nat := 50

def findPathsMaxDepth : Nat := 7

def findPathsDefaultDepth : Nat := 4

def hexDigitChar (digit : Nat) : Char := Char.ofNat (if digit < 10 then 48 + digit else 87 + digit)

/-- The text of one character in a JSON string of the database. -/
def jsonChar (char : Char) : List Char :=
  if char = '"' then ['\\', '"']
  else if char = '\\' then ['\\', '\\']
  else if char.toNat = 8 then ['\\', 'b']
  else if char.toNat = 9 then ['\\', 't']
  else if char.toNat = 10 then ['\\', 'n']
  else if char.toNat = 12 then ['\\', 'f']
  else if char.toNat = 13 then ['\\', 'r']
  else if char.toNat < 32 then
    ['\\', 'u', '0', '0', hexDigitChar (char.toNat / 16), hexDigitChar (char.toNat % 16)]
  else [char]

/-- The array of a path, as the database writes it. -/
def pathText (path : List String) : String :=
  "[" ++ ",".intercalate (path.map fun id => "\"" ++ String.ofList (id.toList.flatMap jsonChar) ++ "\"") ++ "]"

/-- An end that lies in the past hides the link from the current view. -/
def isCurrent (includeInvalidated : Bool) (now : String) (link : MemoryLink) : Bool :=
  includeInvalidated || link.validUntil.all (now < ·)

/-- Each link can be walked both ways, and the union keeps one copy of each hop. -/
def undirectedPairs (links : List MemoryLink) (includeInvalidated : Bool) (now : String) : List (String × String) :=
  let current := links.filter (isCurrent includeInvalidated now)
  ((current.map fun link => (link.sourceId, link.targetId)) ++
    current.map fun link => (link.targetId, link.sourceId)).dedup

def undirectedHops (links : List MemoryLink) (includeInvalidated : Bool) (now : String) (id : String) :
    List (Unit × String) :=
  ((undirectedPairs links includeInvalidated now).filter fun pair => pair.1 = id).map fun pair => ((), pair.2)

/-- Shorter paths come first, and equal lengths go by the text of the path. -/
def pathRank (path : List String) : Nat ×ₗ String := toLex (path.length - 1, pathText path)

def completedPaths (links : List MemoryLink) (includeInvalidated : Bool) (now sourceId targetId : String)
    (depth : Nat) : List (List String) :=
  ((((trailsBelow (undirectedHops links includeInvalidated now) [⟨(), sourceId, [sourceId]⟩] (depth + 1)).filter
    fun row => row.tip = targetId ∧ 1 ≤ row.nodes.length - 1).map Trail.nodes).insertionSort
      fun first second => pathRank first ≤ pathRank second)

def findPaths (links : List MemoryLink) (now sourceId targetId : String) (maxDepth maxResults : Option Nat)
    (includeInvalidated : Bool) : Except StorageError (List (List String)) :=
  let depth := maxDepth.getD findPathsDefaultDepth
  if depth = 0 then .error (.invalidArgument maxDepthMin)
  else if findPathsMaxDepth < depth then
    .error (.invalidArgument ("max_depth=" ++ toString depth ++ " exceeds supported depth=" ++
      toString findPathsMaxDepth ++
      " (FIND_PATHS_MAX_DEPTH); contact maintainers to raise this bound after benchmarking"))
  else
    let cap := max 1 (min (maxResults.getD findPathsDefaultLimit) findPathsMaxLimit)
    if sourceId = targetId then .ok [[sourceId]]
    else .ok ((completedPaths links includeInvalidated now sourceId targetId depth).take cap)

end FindPaths

section Undirected

variable {links : List MemoryLink} {includeInvalidated : Bool} {now sourceId targetId : String} {depth : Nat}

/-- A current link joins the two memories, in one direction or the other. -/
def ConnectedBy (links : List MemoryLink) (includeInvalidated : Bool) (now first second : String) : Prop :=
  ∃ link ∈ links, isCurrent includeInvalidated now link = true ∧
    ((link.sourceId = first ∧ link.targetId = second) ∨ (link.targetId = first ∧ link.sourceId = second))

/-- A path over the links visits no memory twice. -/
structure SimplePath (connected : String → String → Prop) (sourceId targetId : String) (depth : Nat)
    (path : List String) : Prop where
  starts : path.head? = some sourceId
  ends : path.getLast? = some targetId
  follows : path.IsChain connected
  lone : path.Nodup
  short : path.length ≤ depth + 1

/-- A link that can be walked one way can be walked back. -/
theorem ConnectedBy.symm {first second : String} (joined : ConnectedBy links includeInvalidated now first second) :
    ConnectedBy links includeInvalidated now second first := by
  obtain ⟨link, present, current, forward | backward⟩ := joined
  · exact ⟨link, present, current, .inr forward.symm⟩
  · exact ⟨link, present, current, .inl backward.symm⟩

/-- A simple path backwards is a simple path. -/
theorem SimplePath.reverse {path : List String}
    (simple : SimplePath (ConnectedBy links includeInvalidated now) sourceId targetId depth path) :
    SimplePath (ConnectedBy links includeInvalidated now) targetId sourceId depth path.reverse where
  starts := by rw [List.head?_reverse, simple.ends]
  ends := by rw [List.getLast?_reverse, simple.starts]
  follows := List.isChain_reverse.mpr (simple.follows.imp fun _ _ => ConnectedBy.symm)
  lone := List.nodup_reverse.mpr simple.lone
  short := by rw [List.length_reverse]; exact simple.short

/-- The hops join exactly the memories with a current link. -/
theorem nextTo_undirectedHops :
    NextTo (undirectedHops links includeInvalidated now) = ConnectedBy links includeInvalidated now := by
  funext first second
  apply propext
  simp only [NextTo, undirectedHops, undirectedPairs, ConnectedBy, List.mem_map, List.mem_filter, List.mem_dedup,
    List.mem_append, decide_eq_true_eq, Prod.mk.injEq, Prod.exists]
  constructor
  · rintro ⟨_, _, _, ⟨⟨link, ⟨present, current⟩, starts, ends⟩ | ⟨link, ⟨present, current⟩, starts, ends⟩, rfl⟩, _, rfl⟩
    · exact ⟨link, present, current, .inl ⟨starts, ends⟩⟩
    · exact ⟨link, present, current, .inr ⟨starts, ends⟩⟩
  · rintro ⟨link, present, current, ends | ends⟩
    · exact ⟨(), first, second, ⟨.inl ⟨link, ⟨present, current⟩, ends⟩, rfl⟩, trivial, rfl⟩
    · exact ⟨(), first, second, ⟨.inr ⟨link, ⟨present, current⟩, ends⟩, rfl⟩, trivial, rfl⟩

theorem nodup_undirectedHops (id : String) : (undirectedHops links includeInvalidated now id).Nodup := by
  apply List.Nodup.map_on _ ((List.nodup_dedup _).filter _)
  intro one among other present same
  have here := of_decide_eq_true (List.mem_filter.mp among).2
  have there := of_decide_eq_true (List.mem_filter.mp present).2
  exact Prod.ext (here.trans there.symm) (Prod.mk.inj same).2

/-- The trails of the query that have left the source went through the simple paths. -/
theorem trail_iff_simplePath {path : List String} (apart : sourceId ≠ targetId) :
    (∃ row ∈ trailsBelow (undirectedHops links includeInvalidated now) [⟨(), sourceId, [sourceId]⟩] (depth + 1),
      (row.tip = targetId ∧ 1 ≤ row.nodes.length - 1) ∧ row.nodes = path) ↔
      SimplePath (ConnectedBy links includeInvalidated now) sourceId targetId depth path := by
  constructor
  · rintro ⟨row, walked, ⟨rfl, left⟩, rfl⟩
    obtain ⟨round, low, grown⟩ := mem_trailsBelow.mp walked
    cases round with
    | zero =>
        rw [List.mem_singleton.mp grown] at left
        exact absurd left (Nat.not_succ_le_zero 0)
    | succ round =>
        obtain ⟨walk, lone, length⟩ := mem_trailsAt_alone_iff.mp grown
        obtain ⟨before, previous, shape, _⟩ := walk.last
        refine ⟨walk.starts, ?_, nextTo_undirectedHops ▸ walk.follows, lone, by omega⟩
        rw [shape, List.getLast?_append]
        rfl
  · intro simple
    obtain ⟨starts, ends, follows, lone, short⟩ := simple
    rw [← nextTo_undirectedHops] at follows
    rcases List.eq_nil_or_concat path with rfl | ⟨earlier, last, rfl⟩
    · cases starts
    rw [List.concat_eq_append, List.getLast?_append] at ends
    obtain rfl : last = targetId := by simpa using ends
    rcases List.eq_nil_or_concat earlier with rfl | ⟨before, previous, rfl⟩
    · exact absurd (by simpa using starts.symm) apart
    simp only [List.concat_eq_append, List.append_assoc, List.cons_append, List.nil_append]
      at starts follows lone short ⊢
    obtain ⟨label, step⟩ := List.isChain_pair.mp (List.isChain_append.mp follows).2.1
    rw [List.length_append] at short
    have low : before.length + 1 < depth + 1 := Nat.lt_of_succ_le short
    refine ⟨⟨label, last, before ++ [previous, last]⟩, mem_trailsBelow.mpr ⟨before.length + 1, low, ?_⟩,
      ⟨rfl, by simp⟩, rfl⟩
    refine mem_trailsAt_alone_iff.mpr ⟨⟨starts, follows, before, previous, rfl, step⟩, lone, ?_⟩
    simp

/-- The completed paths are the simple paths to the target. -/
theorem mem_completedPaths {path : List String} (apart : sourceId ≠ targetId) :
    path ∈ completedPaths links includeInvalidated now sourceId targetId depth ↔
      SimplePath (ConnectedBy links includeInvalidated now) sourceId targetId depth path := by
  rw [completedPaths, (List.perm_insertionSort _ _).mem_iff, List.mem_map, ← trail_iff_simplePath apart]
  simp only [List.mem_filter, decide_eq_true_eq, and_assoc]

/-- No path is completed twice. -/
theorem nodup_completedPaths : (completedPaths links includeInvalidated now sourceId targetId depth).Nodup := by
  apply (List.perm_insertionSort _ _).nodup_iff.mpr
  have whole : ((trailsBelow (undirectedHops links includeInvalidated now) [⟨(), sourceId, [sourceId]⟩]
      (depth + 1)).map Trail.nodes).Nodup := by
    refine nodup_trailsBelow nodup_undirectedHops (List.nodup_singleton _) fun round row grown => ?_
    cases round with
    | zero => rw [List.mem_singleton.mp grown]; rfl
    | succ round => exact (mem_trailsAt_alone_iff.mp grown).2.2
  exact whole.sublist (List.filter_sublist.map _)

/-- The completed paths come in the order of their ranks. -/
theorem sorted_completedPaths : (completedPaths links includeInvalidated now sourceId targetId depth).Pairwise
    fun first second => pathRank first ≤ pathRank second :=
  insertionSort_sorted pathRank _

/-- The paths back are the paths there, read backwards. -/
theorem completedPaths_reverse (apart : sourceId ≠ targetId) :
    ((completedPaths links includeInvalidated now targetId sourceId depth).map List.reverse).Perm
      (completedPaths links includeInvalidated now sourceId targetId depth) := by
  apply (List.perm_ext_iff_of_nodup (nodup_completedPaths.map List.reverse_injective) nodup_completedPaths).mpr
  intro path
  rw [List.mem_map, mem_completedPaths apart]
  constructor
  · rintro ⟨back, listed, rfl⟩
    exact ((mem_completedPaths apart.symm).mp listed).reverse
  · intro simple
    exact ⟨path.reverse, (mem_completedPaths apart.symm).mpr simple.reverse, List.reverse_reverse path⟩

/-- The paths back have the lengths of the paths there. -/
theorem completedPaths_lengths (apart : sourceId ≠ targetId) :
    (completedPaths links includeInvalidated now targetId sourceId depth).map List.length =
      (completedPaths links includeInvalidated now sourceId targetId depth).map List.length := by
  have ordered (sourceId targetId : String) (apart : sourceId ≠ targetId) :
      ((completedPaths links includeInvalidated now sourceId targetId depth).map List.length).Pairwise (· ≤ ·) := by
    rw [List.pairwise_map]
    apply List.Pairwise.imp_of_mem _ sorted_completedPaths
    intro first second firstListed secondListed below
    have positive : ∀ path ∈ completedPaths links includeInvalidated now sourceId targetId depth, 0 < path.length := by
      intro path listed
      exact List.length_pos_of_mem (List.mem_of_getLast? ((mem_completedPaths apart).mp listed).ends)
    have := positive first firstListed
    have := positive second secondListed
    rw [pathRank, pathRank, Prod.Lex.toLex_le_toLex] at below
    omega
  refine List.Perm.eq_of_pairwise' (ordered _ _ apart.symm) (ordered _ _ apart) ?_
  have same := (@completedPaths_reverse links includeInvalidated now sourceId targetId depth apart).map List.length
  rw [List.map_map] at same
  have lengths : List.length ∘ List.reverse = (List.length : List String → Nat) := by
    funext path
    exact List.length_reverse
  rwa [lengths] at same

end Undirected

section Exact

variable (links : List MemoryLink) (now sourceId targetId : String) (maxDepth maxResults : Option Nat)
variable (includeInvalidated : Bool)

/-- The number of paths that a call returns at most. -/
def findPathsCap (maxResults : Option Nat) : Nat :=
  max 1 (min (maxResults.getD findPathsDefaultLimit) findPathsMaxLimit)

variable {links now sourceId targetId maxDepth maxResults includeInvalidated} in
/-- The depths that a call accepts, and what it returns for them. -/
theorem findPaths_cases : (∃ reason, findPaths links now sourceId targetId maxDepth maxResults includeInvalidated =
      .error reason ∧ (maxDepth = some 0 ∨ ∃ depth, maxDepth = some depth ∧ findPathsMaxDepth < depth)) ∨
    findPaths links now sourceId targetId maxDepth maxResults includeInvalidated =
      .ok (if sourceId = targetId then [[sourceId]] else
        (completedPaths links includeInvalidated now sourceId targetId (maxDepth.getD findPathsDefaultDepth)).take
          (findPathsCap maxResults)) := by
  unfold findPaths
  dsimp only
  split_ifs with none beyond self
  · refine .inl ⟨_, rfl, .inl ?_⟩
    cases maxDepth with
    | none => cases none
    | some depth => exact congrArg some none
  · refine .inl ⟨_, rfl, .inr ?_⟩
    cases maxDepth with
    | none => exact absurd beyond (by decide)
    | some depth => exact ⟨depth, rfl, beyond⟩
  · exact .inr rfl
  · exact .inr rfl

/-- A path from a memory to itself stays there. -/
theorem SimplePath.eq_singleton {connected : String → String → Prop} {id : String} {depth : Nat} {path : List String}
    (simple : SimplePath connected id id depth path) : path = [id] := by
  obtain ⟨starts, ends, _, lone, _⟩ := simple
  cases path with
  | nil => cases starts
  | cons first rest =>
      obtain rfl : first = id := by simpa using starts
      cases rest with
      | nil => rfl
      | cons second rest =>
          rw [List.getLast?_cons_cons] at ends
          exact absurd (List.mem_of_getLast? ends) (List.nodup_cons.mp lone).1

/-- Every returned path is a simple path over current links, none is returned twice, the shorter ones come first, and
a path is left out only of a full answer that goes before it. -/
theorem findPaths_exact : match findPaths links now sourceId targetId maxDepth maxResults includeInvalidated with
    | .ok paths => paths.Nodup ∧ paths.length ≤ findPathsCap maxResults ∧
        (paths.Pairwise fun first second => pathRank first ≤ pathRank second) ∧
        (∀ path ∈ paths, SimplePath (ConnectedBy links includeInvalidated now) sourceId targetId
          (maxDepth.getD findPathsDefaultDepth) path) ∧
        ∀ path, SimplePath (ConnectedBy links includeInvalidated now) sourceId targetId
            (maxDepth.getD findPathsDefaultDepth) path → path ∉ paths →
          paths.length = findPathsCap maxResults ∧ ∀ listed ∈ paths, pathRank listed ≤ pathRank path
    | .error _ => maxDepth = some 0 ∨ ∃ depth, maxDepth = some depth ∧ findPathsMaxDepth < depth := by
  rcases findPaths_cases with ⟨reason, refused, outside⟩ | found
  · rw [refused]
    exact outside
  rw [found]
  by_cases apart : sourceId = targetId
  · subst apart
    rw [if_pos rfl]
    refine ⟨List.nodup_singleton _, Nat.le_max_left _ _, List.pairwise_singleton _ _, fun path listed => ?_,
      fun path simple absent => absurd (List.mem_singleton.mpr simple.eq_singleton) absent⟩
    rw [List.mem_singleton.mp listed]
    exact ⟨rfl, rfl, List.isChain_singleton _, List.nodup_singleton _, Nat.le_add_left 1 _⟩
  · rw [if_neg apart]
    refine ⟨nodup_completedPaths.sublist (List.take_sublist _ _), List.length_take_le _ _,
      sorted_completedPaths.sublist (List.take_sublist _ _),
      fun path listed => (mem_completedPaths apart).mp (List.mem_of_mem_take listed), fun path simple absent => ?_⟩
    exact cut_of_not_mem_take sorted_completedPaths ((mem_completedPaths apart).mpr simple) absent

variable {links now sourceId targetId maxDepth maxResults includeInvalidated} {there back : List (List String)}

/-- An answer that holds every simple path is not cut. -/
theorem completedPaths_uncut {cap : Nat} (apart : sourceId ≠ targetId) {depth : Nat}
    (whole : ∀ path, SimplePath (ConnectedBy links includeInvalidated now) sourceId targetId depth path →
      path ∈ (completedPaths links includeInvalidated now sourceId targetId depth).take cap) :
    (completedPaths links includeInvalidated now sourceId targetId depth).length ≤ cap := by
  have listed : completedPaths links includeInvalidated now sourceId targetId depth ⊆
      (completedPaths links includeInvalidated now sourceId targetId depth).take cap :=
    fun path present => whole path ((mem_completedPaths apart).mp present)
  have shorter := (nodup_completedPaths.subperm listed).length_le
  rw [List.length_take] at shorter
  exact shorter.trans (min_le_left _ _)

/-- The two directions return paths of the same lengths, and the same paths read backwards where every simple path is
returned. -/
theorem findPaths_symm
    (forward : findPaths links now sourceId targetId maxDepth maxResults includeInvalidated = .ok there)
    (backward : findPaths links now targetId sourceId maxDepth maxResults includeInvalidated = .ok back) :
    back.map List.length = there.map List.length ∧
      ((∀ path, SimplePath (ConnectedBy links includeInvalidated now) sourceId targetId
          (maxDepth.getD findPathsDefaultDepth) path → path ∈ there) → (back.map List.reverse).Perm there) := by
  rcases findPaths_cases with ⟨reason, refused, _⟩ | found
  · cases forward.symm.trans refused
  rcases findPaths_cases with ⟨reason, refused, _⟩ | foundBack
  · cases backward.symm.trans refused
  obtain rfl := Except.ok.inj (forward.symm.trans found)
  obtain rfl := Except.ok.inj (backward.symm.trans foundBack)
  by_cases apart : sourceId = targetId
  · subst apart
    rw [if_pos rfl]
    exact ⟨rfl, fun _ => .refl _⟩
  · rw [if_neg apart, if_neg (Ne.symm apart), List.map_take, List.map_take, completedPaths_lengths apart]
    refine ⟨rfl, fun whole => ?_⟩
    have short := completedPaths_uncut apart whole
    have lengths := congrArg List.length (@completedPaths_lengths links includeInvalidated now sourceId targetId
      (maxDepth.getD findPathsDefaultDepth) apart)
    rw [List.length_map, List.length_map] at lengths
    rw [List.map_take, List.take_of_length_le (by rw [List.length_map, lengths]; exact short),
      List.take_of_length_le short]
    exact completedPaths_reverse apart

/-- The one path of a chain fills an answer of one path without being cut. -/
theorem findPaths_symm_chain :
    [["c", "b", "a"]].map List.length = [["a", "b", "c"]].map List.length ∧
      ([["c", "b", "a"]].map List.reverse).Perm [["a", "b", "c"]] := by
  have both := findPaths_symm
    (show findPaths (derivedChain "claimed").memoryLinks "2026-06-16T10:00:00.000Z" "a" "c" none (some 1) false =
      .ok [["a", "b", "c"]] by decide +kernel)
    (show findPaths (derivedChain "claimed").memoryLinks "2026-06-16T10:00:00.000Z" "c" "a" none (some 1) false =
      .ok [["c", "b", "a"]] by decide +kernel)
  have every : completedPaths (derivedChain "claimed").memoryLinks false "2026-06-16T10:00:00.000Z" "a" "c" 4 =
      [["a", "b", "c"]] := by decide +kernel
  refine ⟨both.1, both.2 fun path simple => ?_⟩
  rw [← every]
  exact (mem_completedPaths (by decide)).mpr simple

end Exact

section KgQuery

def kgQueryDefaultLimit : Nat := 200

def kgQueryMaxLimit : Nat := 1000

structure KgQueryNode where
  targetId : String
  relation : String
  validFrom : Option String
  validUntil : Option String
  observedBy : Option String
  title : String
  targetNamespace : String
  depth : Nat
  path : String
  deriving DecidableEq, Repr

/-- The filters that every hop passes; a time replaces the filter of the current view. -/
def hopFilter (now : String) (validAt : Option String) (allowedAgents : Option (List String))
    (includeInvalidated : Bool) (link : MemoryLink) : Bool :=
  (match validAt with
    | some time => link.validFrom.any (· ≤ time) && link.validUntil.all (time < ·)
    | none => isCurrent includeInvalidated now link) &&
  allowedAgents.all fun agents => link.observedBy.any (· ∈ agents)

def directedHops (links : List MemoryLink) (passes : MemoryLink → Bool) (id : String) : List (MemoryLink × String) :=
  (links.filter fun link => link.sourceId = id && passes link).map fun link => (link, link.targetId)

/-- Nearer rows come first, then the links that began earlier. -/
def kgRank (row : Trail MemoryLink String) : Nat ×ₗ String ×ₗ String :=
  toLex (depthOf row, toLex (row.label.validFrom.getD row.label.createdAt, row.label.createdAt))

/-- The join drops the rows whose memory is missing or hidden. -/
def visibleTarget (db : Database) (id : String) : Option Memory :=
  (db.memories.find id).filter fun row => isRecallVisible row.lifecycleState

def kgNode (row : Trail MemoryLink String) (target : Memory) : KgQueryNode :=
  ⟨row.tip, row.label.relation, row.label.validFrom, row.label.validUntil, row.label.observedBy, target.title,
    target.namespace, depthOf row, "->".intercalate row.nodes⟩

def kgRows (db : Database) (passes : MemoryLink → Bool) (sourceId : String) (maxDepth : Nat) :
    List (Trail MemoryLink String) :=
  let hops := directedHops db.memoryLinks passes
  ((trailsBelow hops (firstHops hops sourceId) maxDepth).filter fun row =>
    (visibleTarget db row.tip).isSome).insertionSort fun first second => kgRank first ≤ kgRank second

/-- A list of no agents trusts nobody. -/
def kgQuery (db : Database) (now sourceId : String) (maxDepth : Nat) (validAt : Option String)
    (allowedAgents : Option (List String)) (limit : Option Nat) (includeInvalidated : Bool) :
    Except StorageError (List KgQueryNode) :=
  if maxDepth = 0 then .error (.invalidArgument maxDepthMin)
  else if kgQueryMaxSupportedDepth < maxDepth then
    .error (.invalidArgument ("max_depth=" ++ toString maxDepth ++ " exceeds supported depth=" ++
      toString kgQueryMaxSupportedDepth))
  else if allowedAgents = some [] then .ok []
  else
    let cap := max 1 (min (limit.getD kgQueryDefaultLimit) kgQueryMaxLimit)
    .ok (((kgRows db (hopFilter now validAt allowedAgents includeInvalidated) sourceId maxDepth).take cap).filterMap
      fun row => (visibleTarget db row.tip).map (kgNode row))

end KgQuery

section Directed

/-- A link that passes the filters leads from the first memory to the second. -/
def LeadsTo (links : List MemoryLink) (passes : MemoryLink → Bool) (first second : String) : Prop :=
  ∃ link ∈ links, passes link = true ∧ link.sourceId = first ∧ link.targetId = second

/-- A path below the source ends with its last link and visits no memory twice; only its first hop may stay. -/
structure KgPath (links : List MemoryLink) (passes : MemoryLink → Bool) (sourceId : String) (maxDepth : Nat)
    (row : Trail MemoryLink String) : Prop where
  starts : row.nodes.head? = some sourceId
  follows : row.nodes.IsChain (LeadsTo links passes)
  last : ∃ before, row.nodes = before ++ [row.label.sourceId, row.label.targetId]
  tip : row.tip = row.label.targetId
  link : row.label ∈ links
  passes : passes row.label = true
  apart : Trail.Apart sourceId row.nodes
  short : row.nodes.length ≤ maxDepth + 1

variable {db : Database} {passes : MemoryLink → Bool} {sourceId : String} {maxDepth : Nat}
  {row : Trail MemoryLink String}

/-- A hop leads along a link that passes the filters. -/
theorem mem_directedHops {links : List MemoryLink} {id next : String} {link : MemoryLink} :
    (link, next) ∈ directedHops links passes id ↔
      link ∈ links ∧ passes link = true ∧ link.sourceId = id ∧ link.targetId = next := by
  simp only [directedHops, List.mem_map, List.mem_filter, Bool.and_eq_true, decide_eq_true_eq, Prod.mk.injEq]
  constructor
  · rintro ⟨_, ⟨present, starts, passed⟩, rfl, rfl⟩
    exact ⟨present, passed, starts, rfl⟩
  · rintro ⟨present, passed, starts, rfl⟩
    exact ⟨link, ⟨present, starts, passed⟩, rfl, rfl⟩

theorem nextTo_directedHops (links : List MemoryLink) : NextTo (directedHops links passes) = LeadsTo links passes := by
  funext first second
  simp only [NextTo, mem_directedHops, LeadsTo]

/-- The rows of the traversal are the paths below the source. -/
theorem mem_traversal_iff : row ∈ trailsBelow (directedHops db.memoryLinks passes)
      (firstHops (directedHops db.memoryLinks passes) sourceId) maxDepth ↔
    KgPath db.memoryLinks passes sourceId maxDepth row := by
  rw [mem_trailsBelow]
  constructor
  · rintro ⟨round, low, grown⟩
    obtain ⟨⟨starts, follows, before, previous, shape, step⟩, apart, length⟩ := mem_trailsAt_firstHops_iff.mp grown
    obtain ⟨present, passed, rfl, ends⟩ := mem_directedHops.mp step
    rw [nextTo_directedHops] at follows
    exact ⟨starts, follows, ⟨before, ends ▸ shape⟩, ends.symm, present, passed, apart, by omega⟩
  · rintro ⟨starts, follows, ⟨before, shape⟩, tip, present, passed, apart, short⟩
    rw [← nextTo_directedHops] at follows
    have length : row.nodes.length = before.length + 2 := by rw [shape, List.length_append]; rfl
    have step := mem_directedHops.mpr ⟨present, passed, rfl, tip.symm⟩
    exact ⟨before.length, by omega,
      mem_trailsAt_firstHops_iff.mpr ⟨⟨starts, follows, before, _, tip ▸ shape, step⟩, apart, length⟩⟩

/-- Without a trusted agent no link passes. -/
theorem kgRows_nobody {now : String} {validAt : Option String} {includeInvalidated : Bool} :
    kgRows db (hopFilter now validAt (some []) includeInvalidated) sourceId maxDepth = [] := by
  apply List.eq_nil_iff_forall_not_mem.mpr
  intro row listed
  rw [kgRows, (List.perm_insertionSort _ _).mem_iff, List.mem_filter, mem_traversal_iff] at listed
  have passed := listed.1.passes
  cases observed : row.label.observedBy <;> simp [hopFilter, observed] at passed

/-- Each row that the join keeps becomes one node. -/
theorem forall₂_kgNode {rows : List (Trail MemoryLink String)}
    (visible : ∀ row ∈ rows, (visibleTarget db row.tip).isSome) :
    List.Forall₂ (fun node row => ∃ target, visibleTarget db row.tip = some target ∧ node = kgNode row target)
      (rows.filterMap fun row => (visibleTarget db row.tip).map (kgNode row)) rows := by
  induction rows with
  | nil => exact .nil
  | cons row rest ih =>
      obtain ⟨target, found⟩ := Option.isSome_iff_exists.mp (visible row List.mem_cons_self)
      rw [List.filterMap_cons_some (by rw [found, Option.map_some])]
      exact .cons ⟨target, found, rfl⟩ (ih fun other later => visible other (List.mem_cons_of_mem _ later))

/-- The rows of the query are the trails whose target is visible. -/
theorem mem_kgRows : row ∈ kgRows db passes sourceId maxDepth ↔
    KgPath db.memoryLinks passes sourceId maxDepth row ∧ (visibleTarget db row.tip).isSome := by
  rw [kgRows, (List.perm_insertionSort _ _).mem_iff, List.mem_filter, mem_traversal_iff]

variable (db sourceId maxDepth)

def kgQueryCap (limit : Option Nat) : Nat := max 1 (min (limit.getD kgQueryDefaultLimit) kgQueryMaxLimit)

/-- Every returned node ends a path whose links all pass the filters and whose last memory is visible, nearer paths
come first, and such a path is left out only of a full answer that goes before it. -/
theorem kgQuery_exact (now : String) (validAt : Option String) (allowedAgents : Option (List String))
    (limit : Option Nat) (includeInvalidated : Bool) :
    match kgQuery db now sourceId maxDepth validAt allowedAgents limit includeInvalidated with
    | .ok nodes => ∃ rows, rows.length ≤ kgQueryCap limit ∧
        List.Forall₂ (fun node row => ∃ target, visibleTarget db row.tip = some target ∧ node = kgNode row target)
          nodes rows ∧
        (rows.Pairwise fun first second => kgRank first ≤ kgRank second) ∧
        (∀ row ∈ rows,
          KgPath db.memoryLinks (hopFilter now validAt allowedAgents includeInvalidated) sourceId maxDepth row) ∧
        ∀ row, KgPath db.memoryLinks (hopFilter now validAt allowedAgents includeInvalidated) sourceId maxDepth row →
          (visibleTarget db row.tip).isSome → row ∉ rows →
            rows.length = kgQueryCap limit ∧ ∀ listed ∈ rows, kgRank listed ≤ kgRank row
    | .error _ => maxDepth = 0 ∨ kgQueryMaxSupportedDepth < maxDepth := by
  have whole : kgQuery db now sourceId maxDepth validAt allowedAgents limit includeInvalidated =
      if maxDepth = 0 then .error (.invalidArgument maxDepthMin)
      else if kgQueryMaxSupportedDepth < maxDepth then
        .error (.invalidArgument ("max_depth=" ++ toString maxDepth ++ " exceeds supported depth=" ++
          toString kgQueryMaxSupportedDepth))
      else .ok (((kgRows db (hopFilter now validAt allowedAgents includeInvalidated) sourceId maxDepth).take
        (kgQueryCap limit)).filterMap fun row => (visibleTarget db row.tip).map (kgNode row)) := by
    unfold kgQuery
    by_cases nobody : allowedAgents = some []
    · rw [if_pos nobody, nobody, kgRows_nobody, List.take_nil, List.filterMap_nil]
    · rw [if_neg nobody]
      rfl
  rw [whole]
  split_ifs with none beyond
  · exact .inl none
  · exact .inr beyond
  · have sorted : (kgRows db (hopFilter now validAt allowedAgents includeInvalidated) sourceId maxDepth).Pairwise
        fun first second => kgRank first ≤ kgRank second := insertionSort_sorted kgRank _
    refine ⟨_, List.length_take_le _ _, forall₂_kgNode
      fun row listed => (mem_kgRows.mp (List.mem_of_mem_take listed)).2,
      sorted.sublist (List.take_sublist _ _), fun row listed => (mem_kgRows.mp (List.mem_of_mem_take listed)).1,
      fun row path visible absent => ?_⟩
    exact cut_of_not_mem_take sorted (mem_kgRows.mpr ⟨path, visible⟩) absent

end Directed
end AiMemory.Links
