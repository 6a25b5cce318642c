import AiMemory.CborArray.Signable
import AiMemory.Federation.Catchup
import AiMemory.Library.MerkleTree

/-
This file proves which batches of records share the Merkle root that an ingestion event commits.
-/

namespace AiMemory.CborArray
open AiMemory.Crdt AiMemory.Federation AiMemory.Library AiMemory.Machine

def merkleLeafDomain : Bytes := utf8 "ai-memory/ingestion-v1/leaf"
def merkleNodeDomain : Bytes := utf8 "ai-memory/ingestion-v1/node"
def merkleEmptyDomain : Bytes := utf8 "ai-memory/ingestion-v1/empty"

/-- The ids of the visible records are sorted and keep their repetitions. -/
def visibleIds (records : List (String × LifecycleState)) : List String :=
  (records.filterMap fun record => if isRecallVisible record.2 then some record.1 else none).insertionSort (· ≤ ·)

/-- The visible identifiers come in ascending order. -/
theorem visibleIds_sorted (records : List (String × LifecycleState)) :
    (visibleIds records).Pairwise (· ≤ ·) :=
  List.pairwise_insertionSort _ _

section Root
variable (blake3 : Bytes → Digest)

def merkleLeaf (id : String) : Digest := blake3 (merkleLeafDomain ++ utf8 id)

def merkleNode (left right : Digest) : Digest := blake3 (merkleNodeDomain ++ left.1 ++ right.1)

/-- The root of an empty batch is a fixed sentinel. -/
def merkleRoot : List String → Digest
  | [] => blake3 merkleEmptyDomain
  | id :: ids => foldLevels (merkleNode blake3) (merkleLeaf blake3 id) (ids.map (merkleLeaf blake3))

def ingestionRecordSetRoot (records : List (String × LifecycleState)) : Digest :=
  merkleRoot blake3 (visibleIds records)

theorem domains_length : merkleLeafDomain.length = merkleNodeDomain.length := by decide +kernel

/-- The domains separate the hash of a record from the hash of a pair. -/
def recordInputs : TreeInputs String Digest Bytes where
  leaf id := merkleLeafDomain ++ utf8 id
  node left right := merkleNodeDomain ++ left.1 ++ right.1
  leaf_injective first second same := utf8_injective (List.append_cancel_left same)
  node_injective left otherLeft right otherRight same := by
    simp only [List.append_assoc] at same
    obtain ⟨lefts, rights⟩ := List.append_inj (List.append_cancel_left same) (left.2.trans otherLeft.2.symm)
    exact ⟨Subtype.ext lefts, Subtype.ext rights⟩
  leaf_ne_node id left right same := by
    rw [List.append_assoc] at same
    exact absurd (List.append_inj same domains_length).1 (by decide +kernel)

/-- The fold of the root over trees keeps every pair. -/
def recordTree (id : String) (ids : List String) : MerkleTree String :=
  foldLevels .node (.leaf id) (ids.map .leaf)

/-- The inputs that the root hashes. -/
def hashedIds : List String → List Bytes
  | [] => [merkleEmptyDomain]
  | id :: ids => recordInputs.hashed blake3 (recordTree id ids)

/-- The root is the digest of the tree. -/
theorem merkleRoot_cons (id : String) (ids : List String) :
    merkleRoot blake3 (id :: ids) = recordInputs.digest blake3 (recordTree id ids) := by
  have leaves : ids.map (merkleLeaf blake3) =
      (ids.map MerkleTree.leaf).map (recordInputs.digest blake3) := by
    rw [List.map_map]
    rfl
  have pairs (left right : MerkleTree String) : recordInputs.digest blake3 (.node left right) =
      merkleNode blake3 (recordInputs.digest blake3 left) (recordInputs.digest blake3 right) := rfl
  rw [merkleRoot, leaves]
  exact foldLevels_map pairs (.leaf id) (ids.map .leaf)

end Root

section Commitment
variable {blake3 : Bytes → Digest}

/-- The sentinel of an empty batch is no root of records. -/
theorem emptyDomain_root_ne {tree : MerkleTree String}
    (collisionFree : CollisionFree blake3 (merkleEmptyDomain :: recordInputs.hashed blake3 tree)) :
    blake3 merkleEmptyDomain ≠ recordInputs.digest blake3 tree := by
  intro same
  have apart (domain rest : Bytes) (ends : merkleEmptyDomain.take domain.length ≠ domain) :
      merkleEmptyDomain ≠ domain ++ rest := fun whole => ends (by rw [whole, List.take_left])
  cases tree with
  | leaf id =>
      apply apart merkleLeafDomain (utf8 id) (by decide +kernel)
      exact collisionFree _ List.mem_cons_self _ (List.mem_cons_of_mem _ List.mem_cons_self) same
  | node left right =>
      apply apart merkleNodeDomain _ (by decide +kernel)
      rw [← List.append_assoc]
      exact collisionFree _ List.mem_cons_self _ (List.mem_cons_of_mem _ List.mem_cons_self) same

theorem not_padding_nil (ids : List String) : ¬ MerkleTree.Padding ids [] ∧ ¬ MerkleTree.Padding [] ids :=
  ⟨fun ⟨_, _, _, padded⟩ => absurd padded.length_lt (Nat.not_lt_zero _),
    fun ⟨_, _, _, padded⟩ => absurd padded.begun (Nat.not_lt_zero _)⟩

/-- Two sorted lists share a root exactly when they are equal or one pads the other. -/
theorem merkleRoot_eq_iff {first second : List String}
    (collisionFree : CollisionFree blake3 (hashedIds blake3 first ++ hashedIds blake3 second))
    (sorted : first.Pairwise (· ≤ ·)) (alsoSorted : second.Pairwise (· ≤ ·)) :
    merkleRoot blake3 first = merkleRoot blake3 second ↔
      first = second ∨ MerkleTree.Padding first second ∨ MerkleTree.Padding second first := by
  cases first with
  | nil =>
      cases second with
      | nil => simp only [true_or]
      | cons other others =>
          have distinct := emptyDomain_root_ne collisionFree
          rw [merkleRoot_cons, merkleRoot]
          simp only [distinct, reduceCtorEq, not_padding_nil, or_self]
  | cons id ids =>
      cases second with
      | nil =>
          have distinct := emptyDomain_root_ne (collisionFree.mono (List.perm_append_singleton _ _).symm.subset)
          rw [merkleRoot_cons, merkleRoot]
          simp only [distinct.symm, reduceCtorEq, not_padding_nil, or_self]
      | cons other others =>
          rw [merkleRoot_cons, merkleRoot_cons, ← MerkleTree.foldLevels_eq_iff sorted alsoSorted]
          constructor
          · have separates : Set.InjOn blake3
                {input | input ∈ hashedIds blake3 (id :: ids) ++ hashedIds blake3 (other :: others)} :=
              fun left here right there => collisionFree left here right there
            exact TreeInputs.digest_injective separates (fun _ => List.mem_append_left _)
              fun _ => List.mem_append_right _
          · exact congrArg (recordInputs.digest blake3)

/-- The root commits to the ids exactly when the padding of neither batch is written out in the other. -/
theorem recordSetRoot_exact_iff (first second : List (String × LifecycleState))
    (collisionFree : CollisionFree blake3
      (hashedIds blake3 (visibleIds first) ++ hashedIds blake3 (visibleIds second))) :
    (ingestionRecordSetRoot blake3 first = ingestionRecordSetRoot blake3 second ↔
        visibleIds first = visibleIds second) ↔
      ¬ MerkleTree.Padding (visibleIds first) (visibleIds second) ∧
        ¬ MerkleTree.Padding (visibleIds second) (visibleIds first) := by
  rw [ingestionRecordSetRoot, ingestionRecordSetRoot,
    merkleRoot_eq_iff collisionFree (visibleIds_sorted first) (visibleIds_sorted second), ← not_or]
  constructor
  · intro exact padded
    have same := exact.mp (.inr padded)
    rw [same] at padded
    rcases padded with ⟨_, _, _, padded⟩ | ⟨_, _, _, padded⟩ <;> exact lt_irrefl _ padded.length_lt
  · intro unpadded
    exact ⟨fun held => held.resolve_right unpadded, .inl⟩

end Commitment

section Samples

/-- The digests of the records and pairs of the sample batches. -/
def sampleBlake3 : Bytes → Digest :=
  let leaf (id : String) : Bytes := merkleLeafDomain ++ utf8 id
  let node (left right : Nat) : Bytes := merkleNodeDomain ++ (digestOf left).1 ++ (digestOf right).1
  let a := 0x49bdc92ac9f5f417e4019e6f899efc40ed2541b731081f3a1e68eb8fadcc6e7d
  let b := 0xdba88fa1e0e7010ba633c5c6b45c9b9bf2815a9b34069c939afc5739aa6c7dd4
  let c := 0x17ee4854b1ef8f7b7a046f5171438feb2525384afa1b04e11a1b1788db087212
  let d := 0x7af55c536ee1a636a4c26aa5f9edf15fcf5497b1ff52654800e42caab2d3845a
  let ab := 0x357bd69edf96bf9267c0cf3b2d18c4ffe4f81f4b644439cec7978ea49bf695f7
  let cc := 0x6f81031ebf01362b9697f3a18f59fbdfd850b8165f4a3e91fa1db8d78576a630
  let cd := 0xbf70832f7ca768b157dbc5a96db72482ad104246c47e114a577e85513db5acee
  digestOfTable
    [(leaf "a", a), (leaf "b", b), (leaf "c", c), (leaf "d", d), (node a b, ab), (node c c, cc), (node c d, cd),
      (node ab cc, 0xc29db5748582bcdaac621217920f0f4a1ec1e80bc3c7ce61dc7f23eeec25d570),
      (node ab cd, 0x85ae053925747c812630f1fc5957369dbaf81c0e1fcbc866fb335aee1851bb0f)]

def threeRecords : List (String × LifecycleState) := [("c", .open), ("a", .active), ("z", .quarantined), ("b", .done)]

def repeatedRecord : List (String × LifecycleState) := [("c", .open), ("c", .open), ("a", .active), ("b", .done)]

def fourRecords : List (String × LifecycleState) := [("d", .blocked), ("c", .open), ("a", .active), ("b", .done)]

theorem threeIds : visibleIds threeRecords = ["a", "b", "c"] := by decide +kernel

theorem repeatedIds : visibleIds repeatedRecord = ["a", "b", "c", "c"] := by decide +kernel

theorem fourIds : visibleIds fourRecords = ["a", "b", "c", "d"] := by decide +kernel

/-- The third record of a sample stands alone or before a fourth one. -/
theorem recordTree_three :
    recordTree "a" ["b", "c"] = .node (.node (.leaf "a") (.leaf "b")) (.node (.leaf "c") (.leaf "c")) := by
  simp only [recordTree, foldLevels, pairUp, List.map]

theorem recordTree_four (last : String) :
    recordTree "a" ["b", "c", last] = .node (.node (.leaf "a") (.leaf "b")) (.node (.leaf "c") (.leaf last)) := by
  simp only [recordTree, foldLevels, pairUp, List.map]

/-- The batch of a fourth record has a root of its own. -/
theorem fourRecords_committed :
    ingestionRecordSetRoot sampleBlake3 threeRecords = ingestionRecordSetRoot sampleBlake3 fourRecords ↔
      visibleIds threeRecords = visibleIds fourRecords := by
  apply (recordSetRoot_exact_iff threeRecords fourRecords _).mpr
  · rw [threeIds, fourIds]
    constructor
    · rintro ⟨width, start, shared, padded⟩
      have begun : start < 3 := padded.begun
      obtain rfl | rfl : start = 1 ∨ start = 2 := by omega
      · exact absurd (padded.repeated "c" (by decide) "d" (by decide)) (by decide)
      · exact absurd (padded.repeated "c" (by decide) "d" (by decide)) (by decide)
    · rintro ⟨_, _, _, padded⟩
      exact absurd padded.length_lt (by decide)
  · rw [threeIds, fourIds, hashedIds, hashedIds, recordTree_three, recordTree_four]
    decide +kernel

/-- The batch that repeats its third record has the root of the batch that does not. -/
theorem repeatedRecord_meets :
    CollisionFree sampleBlake3
        (hashedIds sampleBlake3 (visibleIds threeRecords) ++ hashedIds sampleBlake3 (visibleIds repeatedRecord)) ∧
      ingestionRecordSetRoot sampleBlake3 threeRecords = ingestionRecordSetRoot sampleBlake3 repeatedRecord ∧
      visibleIds threeRecords ≠ visibleIds repeatedRecord := by
  rw [ingestionRecordSetRoot, ingestionRecordSetRoot, threeIds, repeatedIds, hashedIds, hashedIds,
    merkleRoot_cons, merkleRoot_cons, recordTree_three, recordTree_four]
  decide +kernel

end Samples
end AiMemory.CborArray
