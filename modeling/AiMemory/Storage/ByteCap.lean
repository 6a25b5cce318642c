import AiMemory.Library.CheapestFirst
import AiMemory.Storage.Removal
import Mathlib.Data.Prod.Lex
import Mathlib.Order.WithBot

/-
This file compares the eviction by the byte cap with the fewest cheapest rows whose removal meets the cap.
-/

namespace AiMemory.Storage
open AiMemory.Crdt AiMemory.Library AiMemory.Machine

/-- The columns hold the metadata as the JSON library prints it. -/
structure PrintingEnvironment extends WriterEnvironment where
  metadataText : Json → String
  metadataLen_eq : ∀ metadata, metadataLen metadata = sqlLength (metadataText metadata)

section Measure

variable (env : PrintingEnvironment)

/-- The payload of a row in the bytes of its UTF-8 texts. -/
def rowUtf8Bytes (row : Memory) : Nat :=
  row.title.utf8ByteSize + row.content.utf8ByteSize + (env.metadataText row.metadata).utf8ByteSize

/-- A character takes at least one byte. -/
theorem length_le_utf8ByteSize (text : String) : text.length ≤ text.utf8ByteSize := by
  induction text using String.push_induction with
  | empty => exact le_refl _
  | push text letter ih =>
      have byte := letter.utf8Size_pos
      rw [String.length_push, String.utf8ByteSize_push]
      omega

/-- No text has more characters than bytes. -/
theorem sqlLength_le_utf8ByteSize (text : String) : sqlLength text ≤ text.utf8ByteSize := by
  have kept := List.takeWhile_sublist (l := text.toList) fun letter => letter.toNat ≠ 0
  calc sqlLength text ≤ text.toList.length := kept.length_le
    _ = text.length := String.length_toList
    _ ≤ text.utf8ByteSize := length_le_utf8ByteSize text

/-- The measured size of a row is at most its bytes. -/
theorem rowBytes_le_rowUtf8Bytes (row : Memory) : rowBytes env.toWriterEnvironment row ≤ rowUtf8Bytes env row := by
  have title := sqlLength_le_utf8ByteSize row.title
  have content := sqlLength_le_utf8ByteSize row.content
  have metadata := sqlLength_le_utf8ByteSize (env.metadataText row.metadata)
  unfold rowBytes rowUtf8Bytes
  rw [env.metadataLen_eq]
  omega

end Measure

section Order

/-- A row that was never accessed comes before every access. -/
def accessRank : Option String → WithBot String
  | none => ⊥
  | some accessedAt => accessedAt

def evictionRank (row : Memory) : Nat ×ₗ Int ×ₗ Int ×ₗ WithBot String :=
  toLex (row.tier.rank, toLex (row.priority, toLex (row.accessCount, accessRank row.lastAccessedAt)))

/-- One victim goes before another exactly when its rank is lower. -/
theorem victimBefore_iff (first second : Memory) :
    victimBefore first second = true ↔ evictionRank first < evictionRank second := by
  unfold victimBefore evictionRank
  simp only [Prod.Lex.toLex_lt_toLex, Bool.or_eq_true, Bool.and_eq_true, decide_eq_true_eq]
  cases first.lastAccessedAt with
  | none => cases second.lastAccessedAt <;> simp [accessRank]
  | some firstAt => cases second.lastAccessedAt <;> simp [accessRank]

def namespaceRows (db : Database) («namespace» : String) : List Memory :=
  db.memories.rows.filter fun row => row.namespace = «namespace»

/-- The statement sorts the rows of the namespace and takes the first one. -/
theorem nextVictim_eq (db : Database) («namespace» : String) :
    nextVictim db «namespace» = cheapest evictionRank (namespaceRows db «namespace») := by
  unfold nextVictim cheapest
  congr 1
  funext held row
  cases held with
  | none => rfl
  | some best => simp only [keepCheaper, victimBefore_iff]

def evictionOrder (db : Database) («namespace» : String) : List Memory :=
  cheapestFirst evictionRank (namespaceRows db «namespace»)

/-- The first rows of the order left the table and nothing else did. -/
def FirstRowsLeft (db after : Database) («namespace» : String) (count : Nat) : Prop :=
  after.memories.rows = db.memories.rows.filter fun row =>
    row.id ∉ ((evictionOrder db «namespace»).take count).map (·.id)

/-- The eviction order lists the rows of the namespace. -/
theorem evictionOrder_perm (db : Database) («namespace» : String) :
    (evictionOrder db «namespace»).Perm (namespaceRows db «namespace») := cheapestFirst_perm evictionRank _

theorem length_evictionOrder (db : Database) («namespace» : String) :
    (evictionOrder db «namespace»).length = (namespaceRows db «namespace»).length :=
  (evictionOrder_perm db «namespace»).length_eq

end Order

section Loop

variable {«namespace» : String} {archive : Bool} {now : String}

/-- In either mode the victim leaves the table and nothing else does. -/
theorem rows_evictVictim {db after : Database} {victim : Memory} (stored : victim ∈ db.memories.rows)
    (evicts : evictVictim db victim archive now = .ok after) :
    after.memories.rows = db.memories.rows.filter fun row => row.id ≠ victim.id := by
  have found := (db.memories.find_eq_some_iff victim.id victim).mpr ⟨stored, rfl⟩
  unfold evictVictim at evicts
  split_ifs at evicts with archives reads
  · obtain ⟨⟨archived, moved⟩, archivedOk, rfl⟩ := map_eq_ok.mp evicts
    rcases archiveMemoryNoTx_eq_ok archivedOk with ⟨_, _, absent⟩ | ⟨row, _, _, _, rfl⟩
    · rw [found] at absent
      contradiction
    · simp [archivedCopy, deleteMemories, KeyedTable.retain]
  · obtain ⟨_, rfl⟩ := deleteFromMemories_eq_ok.mp evicts
    simp [deleteMemories, KeyedTable.retain]

/-- An evicted victim leaves the rows of its namespace. -/
theorem namespaceRows_evictVictim {db after : Database} {victim : Memory} (stored : victim ∈ db.memories.rows)
    (evicts : evictVictim db victim archive now = .ok after) : namespaceRows after «namespace» =
      (namespaceRows db «namespace»).filter fun row => row.id ≠ victim.id := by
  rw [namespaceRows, rows_evictVictim stored evicts, namespaceRows, List.filter_filter, List.filter_filter]
  exact congrArg (fun keep => db.memories.rows.filter keep) (funext fun row => Bool.and_comm _ _)

/-- The next victim heads the eviction order. -/
theorem nextVictim_stored {db : Database} {victim : Memory} (next : nextVictim db «namespace» = some victim) :
    victim ∈ db.memories.rows := by
  rw [nextVictim_eq, cheapest_eq_head] at next
  have listed := (cheapestFirst_perm evictionRank _).mem_iff.mp (List.mem_of_mem_head? next)
  exact (List.mem_filter.mp listed).1

/-- The order after an eviction is the rest of the order before it. -/
theorem evictionOrder_evictVictim {db after : Database} {victim : Memory}
    (next : nextVictim db «namespace» = some victim) (evicts : evictVictim db victim archive now = .ok after) :
    evictionOrder db «namespace» = victim :: evictionOrder after «namespace» := by
  have stored := nextVictim_stored next
  have distinct := (List.Nodup.of_map _ db.memories.uniqueId).filter fun row => row.namespace = «namespace»
  rw [nextVictim_eq] at next
  rw [evictionOrder, evictionOrder, namespaceRows_evictVictim stored evicts]
  apply cheapestFirst_tail evictionRank distinct next
  intro row present
  rw [decide_eq_true_iff, not_iff_not]
  constructor
  · exact List.inj_on_of_nodup_map db.memories.uniqueId (List.mem_filter.mp present).1 stored
  · exact congrArg Memory.id

/-- The sum of the namespace is the size of its eviction order. -/
theorem namespaceCorpusBytes_eq (env : WriterEnvironment) (db : Database) («namespace» : String) :
    namespaceCorpusBytes env db «namespace» = totalSize (rowBytes env) (evictionOrder db «namespace») :=
  totalSize_perm (evictionOrder_perm db «namespace»).symm

/-- An eviction takes the size of the victim off the sum. -/
theorem namespaceCorpusBytes_evictVictim (env : WriterEnvironment) {db after : Database} {victim : Memory}
    (next : nextVictim db «namespace» = some victim) (evicts : evictVictim db victim archive now = .ok after) :
    namespaceCorpusBytes env db «namespace» - rowBytes env victim = namespaceCorpusBytes env after «namespace» := by
  rw [namespaceCorpusBytes_eq, evictionOrder_evictVictim next evicts, totalSize_cons, namespaceCorpusBytes_eq]
  omega

/-- An eviction leaves one row of the namespace less. -/
theorem length_namespaceRows_evictVictim {db after : Database} {victim : Memory}
    (next : nextVictim db «namespace» = some victim) (evicts : evictVictim db victim archive now = .ok after) :
    (namespaceRows db «namespace»).length = (namespaceRows after «namespace»).length + 1 := by
  rw [← length_evictionOrder, evictionOrder_evictVictim next evicts, List.length_cons, length_evictionOrder]

/-- The victim leaves first, and then the rows that a later state orders first. -/
theorem firstRowsLeft_evictVictim {db evicted after : Database} {victim : Memory} {count : Nat}
    (next : nextVictim db «namespace» = some victim) (evicts : evictVictim db victim archive now = .ok evicted)
    (rest : FirstRowsLeft evicted after «namespace» count) : FirstRowsLeft db after «namespace» (count + 1) := by
  unfold FirstRowsLeft at rest ⊢
  rw [rest, evictionOrder_evictVictim next evicts, rows_evictVictim (nextVictim_stored next) evicts,
    List.filter_filter]
  apply List.filter_congr
  intro row _
  simp [Bool.and_comm]

/-- The running total is the size of the rows that are left, so the loop stops where the rest first fits. -/
theorem sizeGcLoop_spec (env : WriterEnvironment) {cap : Int} (rounds : Nat) (db : Database) {after : Database}
    (evicted : Nat) {total : Nat} (enough : (namespaceRows db «namespace»).length < rounds)
    (returns : sizeGcLoop env «namespace» cap archive now rounds db (namespaceCorpusBytes env db «namespace») evicted =
      (after, .ok total)) :
    let count := shedCount (rowBytes env) cap (evictionOrder db «namespace»)
    total = evicted + count ∧ FirstRowsLeft db after «namespace» count := by
  induction rounds generalizing db evicted with
  | zero => exact absurd enough (Nat.not_lt_zero _)
  | succ rounds ih =>
      simp only
      rw [sizeGcLoop] at returns
      by_cases fits : namespaceCorpusBytes env db «namespace» ≤ cap
      · rw [if_pos fits] at returns
        obtain ⟨rfl, same⟩ := Prod.mk.inj returns
        rw [namespaceCorpusBytes_eq] at fits
        rw [shedCount_of_fits fits, ← Except.ok.inj same]
        simp [FirstRowsLeft]
      · rw [if_neg fits] at returns
        rw [namespaceCorpusBytes_eq] at fits
        cases next : nextVictim db «namespace» with
        | none =>
            rw [next] at returns
            obtain ⟨rfl, same⟩ := Prod.mk.inj returns
            have empty : evictionOrder db «namespace» = [] := by
              rw [nextVictim_eq, cheapest_eq_head] at next
              exact List.head?_eq_none_iff.mp next
            rw [empty, ← Except.ok.inj same]
            simp [shedCount, FirstRowsLeft]
        | some victim =>
            rw [next] at returns
            dsimp only at returns
            cases evicts : evictVictim db victim archive now with
            | error error =>
                rw [evicts] at returns
                cases (Prod.mk.inj returns).2
            | ok evictedDb =>
                rw [evicts] at returns
                dsimp only at returns
                rw [namespaceCorpusBytes_evictVictim env next evicts] at returns
                have shorter := length_namespaceRows_evictVictim next evicts
                obtain ⟨counted, rest⟩ := ih evictedDb (evicted + 1) (by omega) returns
                rw [evictionOrder_evictVictim next evicts] at fits ⊢
                rw [shedCount, if_neg fits]
                exact ⟨counted.trans (by omega), firstRowsLeft_evictVictim next evicts rest⟩

end Loop

section Minimal

/-- The rows that left are the cheapest of the namespace, and no fewer of them bring the rest under the cap. -/
structure MinimalEviction (size : Memory → Nat) (db : Database) («namespace» : String) (cap : Int)
    (after : Database) (evicted : Nat) : Prop where
  capped : totalSize size (namespaceRows after «namespace») ≤ cap ∨ namespaceRows after «namespace» = []
  left : after.memories.rows.length + evicted = db.memories.rows.length
  kept : after.memories.rows.Sublist db.memories.rows
  others : after.memories.rows.filter (fun row => row.namespace ≠ «namespace») =
    db.memories.rows.filter fun row => row.namespace ≠ «namespace»
  cheapest : ∃ order : List Memory, order.Perm (namespaceRows db «namespace») ∧
    order.Pairwise (fun first second => evictionRank first ≤ evictionRank second) ∧
    (namespaceRows after «namespace»).Perm (order.drop evicted) ∧
    ∀ fewer < evicted, cap < totalSize size (order.drop fewer)

variable {db after : Database} {«namespace» : String} {cap : Int} {count : Nat}

/-- The rows of the namespace that stay are the end of the eviction order. -/
theorem FirstRowsLeft.namespaceRows_perm (rows : FirstRowsLeft db after «namespace» count) :
    (namespaceRows after «namespace»).Perm ((evictionOrder db «namespace»).drop count) := by
  have arranged := evictionOrder_perm db «namespace»
  have distinct : ((evictionOrder db «namespace»).map (·.id)).Nodup :=
    (arranged.map _).nodup_iff.mpr (db.memories.uniqueId.sublist (List.filter_sublist.map _))
  have same : namespaceRows after «namespace» = (namespaceRows db «namespace»).filter fun row =>
      row.id ∉ ((evictionOrder db «namespace»).take count).map (·.id) := by
    rw [namespaceRows, rows, namespaceRows, List.filter_filter, List.filter_filter]
    exact congrArg (fun keep => db.memories.rows.filter keep) (funext fun row => Bool.and_comm _ _)
  rw [same, ← filter_key_not_take distinct count]
  exact (arranged.symm).filter _

/-- A row of another namespace is in no part of the order. -/
theorem notMem_taken {row : Memory} (present : row ∈ db.memories.rows) (other : row.namespace ≠ «namespace»)
    (count : Nat) : row.id ∉ ((evictionOrder db «namespace»).take count).map (·.id) := by
  intro taken
  obtain ⟨victim, inside, sameId⟩ := List.mem_map.mp taken
  have listed := (evictionOrder_perm db «namespace»).mem_iff.mp (List.mem_of_mem_take inside)
  obtain ⟨stored, within⟩ := List.mem_filter.mp listed
  rw [List.inj_on_of_nodup_map db.memories.uniqueId stored present sameId] at within
  exact other (of_decide_eq_true within)

/-- The rows of other namespaces stay. -/
theorem FirstRowsLeft.others (rows : FirstRowsLeft db after «namespace» count) :
    after.memories.rows.filter (fun row => row.namespace ≠ «namespace») =
      db.memories.rows.filter fun row => row.namespace ≠ «namespace» := by
  rw [show after.memories.rows = _ from rows, List.filter_filter]
  apply List.filter_congr
  intro row present
  by_cases other : row.namespace ≠ «namespace»
  · rw [decide_eq_true other, decide_eq_true (notMem_taken present other count)]
    rfl
  · rw [decide_eq_false other]
    rfl

/-- The rows that are gone from the table are gone from the namespace. -/
theorem FirstRowsLeft.length (rows : FirstRowsLeft db after «namespace» count)
    (within : count ≤ (evictionOrder db «namespace»).length) :
    after.memories.rows.length + count = db.memories.rows.length := by
  have inside := rows.namespaceRows_perm.length_eq
  have outside := congrArg List.length rows.others
  have before := List.length_eq_length_filter_add (l := db.memories.rows) fun row => row.namespace = «namespace»
  have later := List.length_eq_length_filter_add (l := after.memories.rows) fun row => row.namespace = «namespace»
  rw [List.length_drop, length_evictionOrder] at inside
  rw [length_evictionOrder] at within
  unfold namespaceRows at inside within
  simp only [decide_not] at outside
  omega

/-- The code evicts the fewest of the cheapest rows by its own measure. -/
theorem sizeGc_sheds (env : WriterEnvironment) {archive : Bool} {now : env.chrono.Instant} (positive : 0 < cap)
    (returns : sizeGc env db «namespace» cap archive now = (after, .ok count)) :
    FirstRowsLeft db after «namespace» count ∧ MinimalShed (rowBytes env) cap (evictionOrder db «namespace») count := by
  rw [sizeGc, if_neg (not_le.mpr positive)] at returns
  have enough : (namespaceRows db «namespace»).length < db.memories.rows.length + 1 :=
    Nat.lt_succ_of_le (List.length_filter_le _ _)
  obtain ⟨total, left⟩ := sizeGcLoop_spec env _ db 0 enough returns
  have counted : count = shedCount (rowBytes env) cap (evictionOrder db «namespace») := total.trans (Nat.zero_add _)
  rw [← counted] at left
  exact ⟨left, counted.symm ▸ minimalShed_shedCount _ _ _⟩

/-- Every end of the eviction order that has at most the cap in characters has at most the cap in bytes. -/
def CharactersCoverBytes (env : PrintingEnvironment) (db : Database) («namespace» : String) (cap : Int) : Prop :=
  ∀ cut, totalSize (rowBytes env.toWriterEnvironment) ((evictionOrder db «namespace»).drop cut) ≤ cap →
    totalSize (rowUtf8Bytes env) ((evictionOrder db «namespace»).drop cut) ≤ cap

/-- The eviction is minimal in bytes exactly when no end of the order that fits in characters exceeds the cap in
bytes. -/
theorem sizeGc_minimal_iff (env : PrintingEnvironment) {archive : Bool} {now : env.chrono.Instant}
    (positive : 0 < cap)
    (returns : sizeGc env.toWriterEnvironment db «namespace» cap archive now = (after, .ok count)) :
    MinimalEviction (rowUtf8Bytes env) db «namespace» cap after count ↔
      CharactersCoverBytes env db «namespace» cap := by
  obtain ⟨left, shed⟩ := sizeGc_sheds env.toWriterEnvironment positive returns
  have remain := left.namespaceRows_perm
  have exactly := @MinimalShed.fits_other_iff _ _ _ (rowUtf8Bytes env) (le_of_lt positive) _ _ shed
  rw [CharactersCoverBytes, ← exactly, ← totalSize_perm remain]
  constructor
  · intro minimal
    refine minimal.capped.imp_right fun none => ?_
    rw [none] at remain
    exact remain.symm.eq_nil
  · intro fits
    refine ⟨fits.imp_right fun none => (none ▸ remain).eq_nil, left.length shed.within, ?_, left.others, ?_⟩
    · rw [show after.memories.rows = _ from left]
      exact List.filter_sublist
    · exact ⟨_, evictionOrder_perm db «namespace», cheapestFirst_sorted evictionRank _, remain,
        shed.needed_larger (rowBytes_le_rowUtf8Bytes env)⟩

/-- The printed metadata of the rows is an empty object. -/
def openPrintingEnvironment : PrintingEnvironment where
  toWriterEnvironment := openWriterEnvironment
  metadataText _ := "\x7b\x7d"
  metadataLen_eq _ := by
    show 2 = sqlLength "\x7b\x7d"
    decide +kernel

/-- The content takes two bytes for each of its five characters. -/
def accentedDatabase : Database where
  memories := ⟨[{ Memory.base "accented" "2026-06-16T00:00:00+00:00" with content := "ééééé" }],
    List.nodup_singleton _, List.nodup_singleton _⟩
  archivedMemories := []
  forgetTombstones := []
  recordStop := none
  memoryLinks := []
  archivedMemoryLinks := []
  namespaceMeta := []
  atomOf _ := none
  archivedAtomOf _ := none

def tieredRow (id : String) (tier : Tier) («namespace» content : String) : Memory :=
  { Memory.base id "2026-06-16T00:00:00+00:00" with
      title := id, tier := tier, «namespace» := «namespace», content := content }

/-- Two rows of the namespace are less durable than the third. -/
def tieredDatabase : Database :=
  { accentedDatabase with
      memories := ⟨[tieredRow "l" .long "ns" "cc", tieredRow "o" .short "other" "dddd", tieredRow "m" .mid "ns" "bbbb",
        tieredRow "s" .short "ns" "aaaa"],
        (by decide : ["l", "o", "m", "s"].Nodup),
        (by decide : [("l", "ns"), ("o", "other"), ("m", "ns"), ("s", "ns")].Nodup)⟩ }

/-- A cap of six bytes is met by the removal of the short and the middle row. -/
theorem sizeGc_minimal_drained : ∃ after, sizeGc openWriterEnvironment tieredDatabase "ns" 6 true (0 : Int) =
      (after, .ok 2) ∧ after.memories.rows.map (·.id) = ["l", "o"] ∧
      MinimalEviction (rowUtf8Bytes openPrintingEnvironment) tieredDatabase "ns" 6 after 2 := by
  refine ⟨_, rfl, rfl, ?_⟩
  apply (@sizeGc_minimal_iff _ _ _ _ _ openPrintingEnvironment true (0 : Int) (by decide) rfl).mpr
  intro cut
  match cut with
  | 0 => decide
  | 1 => decide
  | 2 => decide
  | cut + 3 =>
      intro _
      show totalSize (rowUtf8Bytes openPrintingEnvironment) (List.drop cut []) ≤ 6
      rw [List.drop_nil]
      decide

/-- A row of eight characters stays under a cap of eight bytes and takes thirteen. -/
theorem sizeGc_keeps_more_bytes : ∃ after count, sizeGc openWriterEnvironment accentedDatabase "ns" 8 true (0 : Int) =
      (after, .ok count) ∧
    ¬ MinimalEviction (rowUtf8Bytes openPrintingEnvironment) accentedDatabase "ns" 8 after count := by
  refine ⟨accentedDatabase, 0, rfl, ?_⟩
  intro minimal
  have capped := minimal.capped
  revert capped
  decide

end Minimal
end AiMemory.Storage
