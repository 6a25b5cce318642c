import AiMemory.Consolidation.Trust
import AiMemory.Library.Run
import AiMemory.Library.SortOn
import AiMemory.Library.Trails
import AiMemory.Links.ReflectionGraph
import Mathlib.Data.List.Dedup
import Mathlib.Data.List.MinMax
import Mathlib.Data.Prod.Lex

/-
This file embeds the walk over the lineage and the trust that it propagates.
-/

namespace AiMemory.Links
open AiMemory.Consolidation AiMemory.Crdt AiMemory.Library AiMemory.Storage

section Model

def kgQueryMaxSupportedDepth : Nat := 5

def lineageMaxDepth : Nat := kgQueryMaxSupportedDepth

def maxDepthMin : String := "max_depth must be >= 1"

inductive LineageDirection where
  | ancestors | descendants
  deriving DecidableEq, Repr

structure LineageNode where
  id : String
  cid : Option String
  relation : String
  depth : Nat
  deriving DecidableEq, Repr

def MemoryLinkRelation.lineage : List MemoryLinkRelation := [.derivedFrom, .reflectsOn, .derivesFrom]

/-- The column that a hop starts from. -/
def LineageDirection.anchor : LineageDirection → MemoryLink → String
  | .ancestors, link => link.sourceId
  | .descendants, link => link.targetId

/-- The column that a hop leads to. -/
def LineageDirection.node : LineageDirection → MemoryLink → String
  | .ancestors, link => link.targetId
  | .descendants, link => link.sourceId

def LineageDirection.nodeEnd : LineageDirection → LinkEnd
  | .ancestors => .target
  | .descendants => .source

def lineageHops (links : List MemoryLink) (direction : LineageDirection) (id : String) : List (MemoryLink × String) :=
  (links.filter fun link => direction.anchor link = id ∧
    link.relation ∈ MemoryLinkRelation.lineage.map MemoryLinkRelation.asStr).map fun link => (link, direction.node link)

/-- A row of the recursion is a trail, and its depth counts the hops of its path. -/
def depthOf (row : Trail MemoryLink String) : Nat := row.nodes.length - 1

/-- The links mirror the content identifiers of their ends in columns that nothing else of the model reads. -/
def lineageNode (mirror : MemoryLink → LinkEnd → Option String) (db : Database) (direction : LineageDirection)
    (row : Trail MemoryLink String) : LineageNode :=
  ⟨row.tip, (mirror row.label direction.nodeEnd).or ((db.memories.find row.tip).bind (·.cid)), row.label.relation,
    depthOf row⟩

/-- One row stands for each node, and it is one of the least depth. -/
def groupByNode (rows : List (Trail MemoryLink String)) : List (Trail MemoryLink String) :=
  (rows.map (·.tip)).dedup.filterMap fun id => (rows.filter fun row => row.tip = id).argmin depthOf

def lineageRank (node : LineageNode) : Nat ×ₗ String := toLex (node.depth, node.id)

def lineageTraverse (mirror : MemoryLink → LinkEnd → Option String) (db : Database) (rootId : String)
    (maxDepth : Nat) (direction : LineageDirection) : Except StorageError (List LineageNode) :=
  if maxDepth = 0 then .error (.invalidArgument maxDepthMin)
  else if lineageMaxDepth < maxDepth then
    .error (.invalidArgument ("max_depth=" ++ toString maxDepth ++ " exceeds supported depth=" ++
      toString lineageMaxDepth))
  else
    let hops := lineageHops db.memoryLinks direction
    let rows := trailsBelow hops (firstHops hops rootId) maxDepth
    .ok (((groupByNode rows).map (lineageNode mirror db direction)).insertionSort fun first second =>
      lineageRank first ≤ lineageRank second)

def lineageAncestors (mirror : MemoryLink → LinkEnd → Option String) (db : Database) (rootId : String)
    (maxDepth : Nat) : Except StorageError (List LineageNode) :=
  lineageTraverse mirror db rootId maxDepth .ancestors

def lineageDescendants (mirror : MemoryLink → LinkEnd → Option String) (db : Database) (rootId : String)
    (maxDepth : Nat) : Except StorageError (List LineageNode) :=
  lineageTraverse mirror db rootId maxDepth .descendants

def transitiveSuspects (mirror : MemoryLink → LinkEnd → Option String) (db : Database) (rootId : String)
    (maxDepth : Nat) : Except StorageError (List LineageNode) :=
  lineageDescendants mirror db rootId maxDepth

/-- A missing root is not attested, and a missing ancestor bounds nothing. -/
def propagatedTrustTier (mirror : MemoryLink → LinkEnd → Option String) (db : Database) (id : String)
    (maxDepth : Nat) : Except StorageError TrustTier := do
  let tier := ((db.memories.find id).map fun row => TrustTier.ofMetadata row.metadata).getD .unattested
  let nodes ← lineageAncestors mirror db id maxDepth
  return nodes.foldl (fun tier node =>
    match db.memories.find node.id with
    | some row => min tier (TrustTier.ofMetadata row.metadata)
    | none => tier) tier

end Model

section Reach

/-- The provenance edges in the direction of a walk. -/
def provenance (db : Database) : LineageDirection → String → String → Prop
  | .ancestors => edges db.memoryLinks isLineage
  | .descendants => fun target source => edges db.memoryLinks isLineage source target

theorem mem_lineage_iff (relation : String) :
    relation ∈ MemoryLinkRelation.lineage.map MemoryLinkRelation.asStr ↔ isLineage relation = true := by
  constructor
  · intro listed
    obtain ⟨kind, among, rfl⟩ := List.mem_map.mp listed
    rw [isLineage, MemoryLinkRelation.fromStr_asStr, Option.any_some]
    cases kind <;> simp_all [MemoryLinkRelation.lineage, MemoryLinkRelation.isLineage]
  · intro lineage
    unfold isLineage MemoryLinkRelation.fromStr at lineage
    split at lineage <;> simp_all [MemoryLinkRelation.lineage, MemoryLinkRelation.isLineage, MemoryLinkRelation.asStr]

variable {mirror : MemoryLink → LinkEnd → Option String} {db : Database} {rootId : String} {maxDepth : Nat}
variable {direction : LineageDirection} {nodes : List LineageNode}

/-- A hop leads along a lineage link from its anchor. -/
theorem mem_lineageHops {links : List MemoryLink} {id next : String} {link : MemoryLink} :
    (link, next) ∈ lineageHops links direction id ↔
      link ∈ links ∧ direction.anchor link = id ∧ isLineage link.relation = true ∧ direction.node link = next := by
  unfold lineageHops
  simp_rw [mem_lineage_iff]
  simp only [List.mem_map, List.mem_filter, decide_eq_true_eq, Prod.mk.injEq]
  constructor
  · rintro ⟨_, ⟨present, anchored, lineage⟩, rfl, rfl⟩
    exact ⟨present, anchored, lineage, rfl⟩
  · rintro ⟨present, anchored, lineage, rfl⟩
    exact ⟨link, ⟨present, anchored, lineage⟩, rfl, rfl⟩

/-- The hops follow the provenance of the direction. -/
theorem nextTo_lineageHops : NextTo (lineageHops db.memoryLinks direction) = provenance db direction := by
  funext source target
  apply propext
  cases direction <;> simp only [NextTo, mem_lineageHops, provenance, edges, LineageDirection.anchor,
    LineageDirection.node] <;> grind

/-- How far a node is from the root; the root itself is listed only when an edge leaves it for itself. -/
def LineageDistance (db : Database) (direction : LineageDirection) (rootId id : String) (depth : Nat) : Prop :=
  (id ≠ rootId ∧ Shortest (provenance db direction) depth rootId id) ∨
    (id = rootId ∧ depth = 1 ∧ provenance db direction rootId rootId)

/-- The group of a node keeps its first trail of least depth. -/
theorem mem_groupByNode {rows : List (Trail MemoryLink String)} {row : Trail MemoryLink String} :
    row ∈ groupByNode rows ↔ row ∈ (rows.filter fun other => other.tip = row.tip).argmin depthOf := by
  rw [groupByNode, List.mem_filterMap]
  constructor
  · rintro ⟨id, _, least⟩
    have among := (List.mem_filter.mp (List.argmin_mem least)).2
    rwa [of_decide_eq_true among]
  · intro least
    refine ⟨row.tip, ?_, least⟩
    exact List.mem_dedup.mpr (List.mem_map_of_mem (List.mem_filter.mp (List.argmin_mem least)).1)

/-- Every node that a row ends at has its row, and no other row of the node is nearer. -/
theorem exists_groupByNode {rows : List (Trail MemoryLink String)} {row : Trail MemoryLink String}
    (present : row ∈ rows) : ∃ least ∈ groupByNode rows, least ∈ rows ∧ least.tip = row.tip ∧
      depthOf least ≤ depthOf row := by
  have among : row ∈ rows.filter fun other => other.tip = row.tip := List.mem_filter.mpr ⟨present, by simp⟩
  obtain ⟨least, found⟩ : ∃ least, least ∈ (rows.filter fun other => other.tip = row.tip).argmin depthOf := by
    cases found : (rows.filter fun other => other.tip = row.tip).argmin depthOf with
    | none => exact absurd (List.argmin_eq_none.mp found) (List.ne_nil_of_mem among)
    | some least => exact ⟨least, rfl⟩
  obtain ⟨listed, same⟩ := List.mem_filter.mp (List.argmin_mem found)
  have tip : least.tip = row.tip := of_decide_eq_true same
  refine ⟨least, ?_, listed, tip, List.le_of_mem_argmin among found⟩
  rwa [mem_groupByNode, tip]

/-- Each node is grouped once. -/
theorem groupByNode_tips (rows : List (Trail MemoryLink String)) :
    (groupByNode rows).map (·.tip) = (rows.map (·.tip)).dedup := by
  have whole : ∀ ids : List String, (∀ id ∈ ids, ∃ row ∈ rows, row.tip = id) →
      (ids.filterMap fun id => (rows.filter fun row => row.tip = id).argmin depthOf).map (·.tip) = ids := by
    intro ids held
    induction ids with
    | nil => rfl
    | cons id rest ih =>
        obtain ⟨row, present, rfl⟩ := held id List.mem_cons_self
        obtain ⟨least, grouped, _, tip, _⟩ := exists_groupByNode present
        rw [mem_groupByNode, tip, Option.mem_def] at grouped
        rw [List.filterMap_cons, grouped, List.map_cons, tip, ih fun id later => held id (List.mem_cons_of_mem _ later)]
  apply whole
  intro id listed
  exact List.mem_map.mp (List.mem_dedup.mp listed)

/-- A trail is as deep as the round that grew it. -/
theorem depthOf_trailsAt {row : Trail MemoryLink String} {round : Nat}
    (grown : row ∈ trailsAt (lineageHops db.memoryLinks direction)
      (firstHops (lineageHops db.memoryLinks direction) rootId) round) : depthOf row = round + 1 := by
  rw [depthOf, (mem_trailsAt_firstHops_iff.mp grown).2.2]
  omega

/-- The rows of the groups end at the nodes within reach, each at its distance. -/
theorem grouped_iff {id : String} {depth : Nat} :
    (∃ row ∈ groupByNode (trailsBelow (lineageHops db.memoryLinks direction)
      (firstHops (lineageHops db.memoryLinks direction) rootId) maxDepth), row.tip = id ∧ depthOf row = depth) ↔
      depth ≤ maxDepth ∧ LineageDistance db direction rootId id depth := by
  rw [LineageDistance, ← nextTo_lineageHops]
  constructor
  · rintro ⟨row, grouped, rfl, rfl⟩
    have least := mem_groupByNode.mp grouped
    obtain ⟨round, low, grown⟩ := mem_trailsBelow.mp (List.mem_filter.mp (List.argmin_mem least)).1
    have depth := depthOf_trailsAt grown
    have walk := (hops_trailsAt_firstHops grown).1
    refine ⟨by omega, ?_⟩
    by_cases back : row.tip = rootId
    · cases round with
      | zero => exact .inr ⟨back, depth, _, back ▸ (mem_firstHops.mp grown).1⟩
      | succ round => exact absurd back (tip_ne_root grown)
    · refine .inl ⟨back, depth ▸ walk, fun fewer shorter => ?_⟩
      obtain ⟨count, shortest⟩ := exists_shortest walk.reached
      have below := shortest.least fewer shorter
      cases count with
      | zero => exact absurd (Shortest.zero_iff.mp shortest).symm back
      | succ count =>
          have within := shortest.least _ walk
          obtain ⟨other, earlier, tip⟩ := exists_trail_of_shortest shortest
          have among : other ∈ (trailsBelow (lineageHops db.memoryLinks direction)
              (firstHops (lineageHops db.memoryLinks direction) rootId) maxDepth).filter fun other =>
                other.tip = row.tip :=
            List.mem_filter.mpr ⟨mem_trailsBelow.mpr ⟨count, by omega, earlier⟩, by simp [tip]⟩
          have nearer := List.le_of_mem_argmin among least
          rw [depthOf_trailsAt earlier] at nearer
          omega
  · rintro ⟨low, ⟨_, shortest⟩ | ⟨rfl, rfl, label, step⟩⟩
    · cases depth with
      | zero =>
          have := Shortest.zero_iff.mp shortest
          exact absurd this.symm ‹_›
      | succ depth =>
          obtain ⟨row, grown, rfl⟩ := exists_trail_of_shortest shortest
          obtain ⟨least, grouped, listed, tip, nearer⟩ := exists_groupByNode (mem_trailsBelow.mpr ⟨depth, low, grown⟩)
          obtain ⟨round, _, earlier⟩ := mem_trailsBelow.mp listed
          have walk := (hops_trailsAt_firstHops earlier).1
          rw [tip] at walk
          have := shortest.least _ walk
          rw [depthOf_trailsAt grown] at nearer
          have := depthOf_trailsAt earlier
          exact ⟨least, grouped, tip, by omega⟩
    · have grown : (⟨label, id, [id, id]⟩ : Trail MemoryLink String) ∈ trailsAt (lineageHops db.memoryLinks direction)
          (firstHops (lineageHops db.memoryLinks direction) id) 0 := mem_firstHops.mpr ⟨step, rfl⟩
      obtain ⟨least, grouped, listed, tip, nearer⟩ := exists_groupByNode (mem_trailsBelow.mpr ⟨0, low, grown⟩)
      obtain ⟨round, _, earlier⟩ := mem_trailsBelow.mp listed
      rw [depthOf_trailsAt grown, depthOf_trailsAt earlier] at nearer
      exact ⟨least, grouped, tip, by rw [depthOf_trailsAt earlier]; omega⟩

/-- What the walk within the supported depth returns. -/
theorem lineageTraverse_ok (ok : lineageTraverse mirror db rootId maxDepth direction = .ok nodes) :
    nodes = ((groupByNode (trailsBelow (lineageHops db.memoryLinks direction)
      (firstHops (lineageHops db.memoryLinks direction) rootId) maxDepth)).map
        (lineageNode mirror db direction)).insertionSort fun first second =>
            lineageRank first ≤ lineageRank second := by
  unfold lineageTraverse at ok
  split_ifs at ok
  exact (Except.ok.inj ok).symm

/-- The result lists one trail for each reached node. -/
theorem mem_lineageTraverse (ok : lineageTraverse mirror db rootId maxDepth direction = .ok nodes)
    {node : LineageNode} : node ∈ nodes ↔ ∃ row ∈ groupByNode (trailsBelow (lineageHops db.memoryLinks direction)
      (firstHops (lineageHops db.memoryLinks direction) rootId) maxDepth),
        lineageNode mirror db direction row = node := by
  rw [lineageTraverse_ok ok, (List.perm_insertionSort _ _).mem_iff, List.mem_map]

/-- No memory is listed twice. -/
theorem lineageTraverse_ids (ok : lineageTraverse mirror db rootId maxDepth direction = .ok nodes) :
    (nodes.map (·.id)).Nodup := by
  rw [lineageTraverse_ok ok]
  apply ((List.perm_insertionSort _ _).map _).nodup_iff.mpr
  rw [List.map_map]
  change ((groupByNode _).map (·.tip)).Nodup
  rw [groupByNode_tips]
  exact List.nodup_dedup _

/-- A node is listed with a depth exactly when that is its distance and the walk goes so far. -/
theorem listed_iff (ok : lineageTraverse mirror db rootId maxDepth direction = .ok nodes) {id : String} {depth : Nat} :
    (∃ node ∈ nodes, node.id = id ∧ node.depth = depth) ↔
      depth ≤ maxDepth ∧ LineageDistance db direction rootId id depth := by
  rw [← grouped_iff]
  constructor
  · rintro ⟨node, listed, rfl, rfl⟩
    obtain ⟨row, grouped, rfl⟩ := (mem_lineageTraverse ok).mp listed
    exact ⟨row, grouped, rfl, rfl⟩
  · rintro ⟨row, grouped, rfl, rfl⟩
    exact ⟨_, (mem_lineageTraverse ok).mpr ⟨row, grouped, rfl⟩, rfl, rfl⟩

/-- The last hop to a listed node leaves a node that is one hop nearer. -/
theorem listed_lastHop (ok : lineageTraverse mirror db rootId maxDepth direction = .ok nodes) {node : LineageNode}
    (listed : node ∈ nodes) : ∃ link ∈ db.memoryLinks, isLineage link.relation = true ∧
      direction.node link = node.id ∧ link.relation = node.relation ∧
      Hops (provenance db direction) (node.depth - 1) rootId (direction.anchor link) ∧
      node.cid = (mirror link direction.nodeEnd).or ((db.memories.find node.id).bind (·.cid)) := by
  obtain ⟨row, grouped, rfl⟩ := (mem_lineageTraverse ok).mp listed
  have least := mem_groupByNode.mp grouped
  obtain ⟨round, _, grown⟩ := mem_trailsBelow.mp (List.mem_filter.mp (List.argmin_mem least)).1
  have depth : (lineageNode mirror db direction row).depth - 1 = round := by
    rw [lineageNode, depthOf_trailsAt grown, Nat.add_sub_cancel]
  rw [depth, ← nextTo_lineageHops]
  cases round with
  | zero =>
      obtain ⟨present, anchored, lineage, ends⟩ := mem_lineageHops.mp (mem_firstHops.mp grown).1
      exact ⟨row.label, present, lineage, ends, rfl, anchored ▸ .start _, rfl⟩
  | succ round =>
      obtain ⟨previous, earlier, grown⟩ := mem_trailsAt_succ.mp grown
      obtain ⟨present, anchored, lineage, ends⟩ := mem_lineageHops.mp (Trail.mem_grow.mp grown).1
      exact ⟨row.label, present, lineage, ends, rfl, anchored ▸ (hops_trailsAt_firstHops earlier).1, rfl⟩

/-- The descendants are the ancestors read backwards. -/
theorem provenance_flip : provenance db .descendants =
    fun target source => provenance db .ancestors source target := rfl

/-- Whoever reaches a node as an ancestor is reached from it as a descendant, over as many hops. -/
theorem lineageDistance_flip {first second : String} {depth : Nat} :
    LineageDistance db .ancestors first second depth ↔ LineageDistance db .descendants second first depth := by
  rw [LineageDistance, LineageDistance, provenance_flip, shortest_flip_iff]
  constructor <;> rintro (⟨apart, shortest⟩ | ⟨rfl, rfl, loop⟩)
  · exact .inl ⟨apart.symm, shortest⟩
  · exact .inr ⟨rfl, rfl, loop⟩
  · exact .inl ⟨apart.symm, shortest⟩
  · exact .inr ⟨rfl, rfl, loop⟩

end Reach

section Exact

/-- A walk within the supported depth lists each node within reach once, at its least distance and in the order of
the distances, with the relation and the identifier of a link that enters it from one hop nearer; a walk beyond the
supported depth is refused. -/
theorem lineageTraverse_exact (mirror : MemoryLink → LinkEnd → Option String) (db : Database) (rootId : String)
    (maxDepth : Nat) (direction : LineageDirection) :
    match lineageTraverse mirror db rootId maxDepth direction with
    | .ok nodes => 0 < maxDepth ∧ maxDepth ≤ lineageMaxDepth ∧
        (nodes.map (·.id)).Nodup ∧ (nodes.Pairwise fun first second => lineageRank first ≤ lineageRank second) ∧
        (∀ id depth, (∃ node ∈ nodes, node.id = id ∧ node.depth = depth) ↔
          depth ≤ maxDepth ∧ LineageDistance db direction rootId id depth) ∧
        ∀ node ∈ nodes, ∃ link ∈ db.memoryLinks, isLineage link.relation = true ∧
          direction.node link = node.id ∧ link.relation = node.relation ∧
          Hops (provenance db direction) (node.depth - 1) rootId (direction.anchor link) ∧
          node.cid = (mirror link direction.nodeEnd).or ((db.memories.find node.id).bind (·.cid))
    | .error _ => maxDepth = 0 ∨ lineageMaxDepth < maxDepth := by
  cases walked : lineageTraverse mirror db rootId maxDepth direction with
  | error refused =>
      unfold lineageTraverse at walked
      split_ifs at walked with none beyond
      · exact .inl none
      · exact .inr beyond
  | ok nodes =>
      have within : ¬ maxDepth = 0 ∧ ¬ lineageMaxDepth < maxDepth := by
        unfold lineageTraverse at walked
        split_ifs at walked with none beyond
        exact ⟨none, beyond⟩
      refine ⟨by omega, by omega, lineageTraverse_ids walked, ?_, fun _ _ => listed_iff walked,
        fun _ => listed_lastHop walked⟩
      rw [lineageTraverse_ok walked]
      exact insertionSort_sorted lineageRank _

end Exact

section Trust

variable {mirror : MemoryLink → LinkEnd → Option String} {db edited : Database} {id rootId : String} {maxDepth : Nat}
variable {tier : TrustTier}

/-- The tier of the stored row of an identifier, if there is one. -/
def storedTier (db : Database) (id : String) : Option TrustTier :=
  (db.memories.find id).map fun row => TrustTier.ofMetadata row.metadata

/-- The fold is the greatest bound below its start and the stored tiers. -/
theorem le_foldl_tiers_iff (nodes : List LineageNode) (start : TrustTier) :
    tier ≤ nodes.foldl (fun tier node =>
      match db.memories.find node.id with
      | some row => min tier (TrustTier.ofMetadata row.metadata)
      | none => tier) start ↔
      tier ≤ start ∧ ∀ node ∈ nodes, ∀ stored ∈ storedTier db node.id, tier ≤ stored := by
  induction nodes generalizing start with
  | nil => simp
  | cons node rest ih =>
      rw [List.foldl_cons, ih, List.forall_mem_cons]
      cases found : db.memories.find node.id with
      | none => simp [storedTier, found]
      | some row => simp [storedTier, found, and_assoc]

/-- The propagated tier is the greatest one below the row's own tier and the tiers of its ancestors within reach. -/
theorem le_propagatedTrustTier_iff {propagated : TrustTier}
    (ok : propagatedTrustTier mirror db id maxDepth = .ok propagated) : tier ≤ propagated ↔
      tier ≤ (storedTier db id).getD .unattested ∧
        ∀ ancestor depth, depth ≤ maxDepth → LineageDistance db .ancestors id ancestor depth →
          ∀ stored ∈ storedTier db ancestor, tier ≤ stored := by
  obtain ⟨nodes, walked, folded⟩ := bind_eq_ok.mp ok
  rw [← Except.ok.inj folded, le_foldl_tiers_iff]
  refine and_congr_right fun _ => ?_
  constructor
  · intro below ancestor depth low distance
    obtain ⟨node, listed, rfl, _⟩ := (listed_iff walked).mpr ⟨low, distance⟩
    exact below node listed
  · intro below node listed
    obtain ⟨low, distance⟩ := (listed_iff walked).mp ⟨node, listed, rfl, rfl⟩
    exact below node.id node.depth low distance

/-- The walk of a supported depth does not fail. -/
theorem lineageTraverse_total (direction : LineageDirection) (low : 0 < maxDepth) (high : maxDepth ≤ lineageMaxDepth) :
    ∃ nodes, lineageTraverse mirror db rootId maxDepth direction = .ok nodes := by
  unfold lineageTraverse
  rw [if_neg (by omega), if_neg (by omega)]
  exact ⟨_, rfl⟩

/-- A successful traversal stays within its depth bounds. -/
theorem depth_of_lineageTraverse {direction : LineageDirection} {nodes : List LineageNode}
    (ok : lineageTraverse mirror db rootId maxDepth direction = .ok nodes) :
    0 < maxDepth ∧ maxDepth ≤ lineageMaxDepth := by
  unfold lineageTraverse at ok
  split_ifs at ok
  omega

/-- A record is among the suspects of a root exactly when the root is among its ancestors, at the same depth. -/
theorem suspect_iff_ancestor {suspects ancestors : List LineageNode}
    (downstream : transitiveSuspects mirror db rootId maxDepth = .ok suspects)
    (upstream : lineageAncestors mirror db id maxDepth = .ok ancestors) (depth : Nat) :
    (∃ node ∈ suspects, node.id = id ∧ node.depth = depth) ↔
      ∃ node ∈ ancestors, node.id = rootId ∧ node.depth = depth := by
  rw [listed_iff downstream, listed_iff upstream, lineageDistance_flip]

def levelRow (id level : String) : Memory :=
  { Memory.base id "2026-06-16T10:00:00+00:00" with
    title := id
    metadata := Json.empty.insert "attest_level" (.string level) }

/-- The record "c" was derived from "b", which reflects on "a". -/
def derivedChain (level : String) : Database where
  toStore :=
    { emptyStore with
      memories :=
        ⟨[levelRow "a" level, levelRow "b" "agent_attested", levelRow "c" "agent_attested"],
          (by decide : ["a", "b", "c"].Nodup), (by decide : [("a", "ns"), ("b", "ns"), ("c", "ns")].Nodup)⟩ }
  memoryLinks := [⟨"c", "b", "derived_from", "t", none, none, none, none, "unsigned"⟩,
    ⟨"b", "a", "reflects_on", "t", none, none, none, none, "unsigned"⟩]
  archivedMemoryLinks := []
  namespaceMeta := []
  atomOf _ := none
  archivedAtomOf _ := none

theorem suspect_iff_ancestor_chain :
    (∃ node ∈ [(⟨"b", none, "reflects_on", 1⟩ : LineageNode), ⟨"c", none, "derived_from", 2⟩],
      node.id = "c" ∧ node.depth = 2) ↔
    ∃ node ∈ [(⟨"b", none, "derived_from", 1⟩ : LineageNode), ⟨"a", none, "reflects_on", 2⟩],
      node.id = "a" ∧ node.depth = 2 :=
  suspect_iff_ancestor
    (show transitiveSuspects (fun _ _ => none) (derivedChain "claimed") "a" 5 = .ok _ by decide +kernel)
    (show lineageAncestors (fun _ _ => none) (derivedChain "claimed") "c" 5 = .ok _ by decide +kernel) 2

/-- Two databases with the same links walk to the same nodes. -/
theorem lineageDistance_congr {direction : LineageDirection} (sameLinks : edited.memoryLinks = db.memoryLinks) :
    LineageDistance edited direction = LineageDistance db direction := by
  unfold LineageDistance provenance
  rw [sameLinks]

/-- An edit of a root can move the propagated tier of its suspects only, and it bounds the tier of each of them. -/
theorem suspects_bound_trust {suspects : List LineageNode}
    (downstream : transitiveSuspects mirror db rootId maxDepth = .ok suspects)
    (sameLinks : edited.memoryLinks = db.memoryLinks)
    (sameRows : ∀ other, other ≠ rootId → edited.memories.find other = db.memories.find other) (apart : id ≠ rootId) :
    (id ∈ suspects.map (·.id) → ∀ stored ∈ storedTier edited rootId,
      ∃ tier, propagatedTrustTier mirror edited id maxDepth = .ok tier ∧ tier ≤ stored) ∧
    (id ∉ suspects.map (·.id) →
      propagatedTrustTier mirror edited id maxDepth = propagatedTrustTier mirror db id maxDepth) := by
  obtain ⟨low, high⟩ := depth_of_lineageTraverse downstream
  have total (db : Database) : ∃ tier, propagatedTrustTier mirror db id maxDepth = .ok tier := by
    obtain ⟨nodes, walked⟩ := @lineageTraverse_total mirror db id maxDepth .ancestors low high
    exact ⟨_, bind_eq_ok.mpr ⟨nodes, walked, rfl⟩⟩
  obtain ⟨after, okAfter⟩ := total edited
  obtain ⟨before, okBefore⟩ := total db
  constructor
  · intro suspect stored isStored
    obtain ⟨node, listed, rfl⟩ := List.mem_map.mp suspect
    obtain ⟨within, distance⟩ := (listed_iff downstream).mp ⟨node, listed, rfl, rfl⟩
    rw [← lineageDistance_flip, ← lineageDistance_congr sameLinks] at distance
    exact ⟨after, okAfter, ((le_propagatedTrustTier_iff okAfter).mp le_rfl).2 _ _ within distance _ isStored⟩
  · intro clear
    rw [okAfter, okBefore]
    congr 1
    apply eq_of_forall_le_iff
    intro tier
    rw [le_propagatedTrustTier_iff okAfter, le_propagatedTrustTier_iff okBefore, lineageDistance_congr sameLinks,
      storedTier, storedTier, sameRows id apart]
    refine and_congr_right fun _ => forall_congr' fun ancestor => forall_congr' fun depth => ?_
    refine forall_congr' fun within => forall_congr' fun distance => ?_
    -- The root is no ancestor of a record that is no suspect.
    have other : ancestor ≠ rootId := by
      rintro rfl
      obtain ⟨node, listed, same, _⟩ := (listed_iff downstream).mpr ⟨within, lineageDistance_flip.mp distance⟩
      exact clear (List.mem_map.mpr ⟨node, listed, same⟩)
    rw [storedTier, storedTier, sameRows ancestor other]

/-- The record "a" loses its level, and its suspects lose theirs. -/
theorem suspects_bound_trust_chain :
    ("c" ∈ [(⟨"b", none, "reflects_on", 1⟩ : LineageNode), ⟨"c", none, "derived_from", 2⟩].map (·.id) →
      ∀ stored ∈ storedTier (derivedChain "self_signed") "a",
        ∃ tier, propagatedTrustTier (fun _ _ => none) (derivedChain "self_signed") "c" 5 = .ok tier ∧ tier ≤ stored) ∧
    ("c" ∉ [(⟨"b", none, "reflects_on", 1⟩ : LineageNode), ⟨"c", none, "derived_from", 2⟩].map (·.id) →
      propagatedTrustTier (fun _ _ => none) (derivedChain "self_signed") "c" 5 =
        propagatedTrustTier (fun _ _ => none) (derivedChain "agent_attested") "c" 5) := by
  refine suspects_bound_trust
    (show transitiveSuspects (fun _ _ => none) (derivedChain "agent_attested") "a" 5 = .ok _ by decide +kernel) rfl
    (fun other apart => ?_) (by decide)
  have skip (level : String) : (derivedChain level).memories.find other =
      [levelRow "b" "agent_attested", levelRow "c" "agent_attested"].find? fun row => row.id = other :=
    List.find?_cons_of_neg fun same => apart (of_decide_eq_true same).symm
  rw [skip, skip]

end Trust
end AiMemory.Links
