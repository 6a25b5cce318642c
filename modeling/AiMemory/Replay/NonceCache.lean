import AiMemory.Library.SortOn
import AiMemory.Library.Table
import AiMemory.Machine.Bytes
import Mathlib.Data.Finset.Basic

/-
This file embeds the federation nonce cache and its persistence.
-/

namespace AiMemory.Replay
open AiMemory.Library AiMemory.Machine

def federationNonceCapacityPerPeer : Nat := 10000

def federationNonceMaxPeers : Nat := 1024

inductive ReplayDecision where
  | fresh
  | replay
  deriving DecidableEq

structure PeerNonceSlot where
  seen : Finset Digest
  order : List Digest
  lastTouch : Nat

namespace PeerNonceSlot

def empty : PeerNonceSlot := ⟨∅, [], 0⟩

/-- A full slot loses its oldest fingerprint. -/
def popFront (slot : PeerNonceSlot) : PeerNonceSlot × Option Digest :=
  if slot.order.length ≥ federationNonceCapacityPerPeer then
    match slot.order with
    | evicted :: rest => ({ slot with order := rest, seen := slot.seen.erase evicted }, some evicted)
    | [] => (slot, none)
  else (slot, none)

def pushBack (slot : PeerNonceSlot) (fp : Digest) : PeerNonceSlot :=
  { slot with order := slot.order ++ [fp], seen := insert fp slot.seen }

end PeerNonceSlot

/-- The hash map has one slot for each peer. -/
abbrev PeerSlots := Table (Prod.fst : String × PeerNonceSlot → String)

def slotOf (slots : PeerSlots) (peerId : String) : Option PeerNonceSlot :=
  (slots.lookup peerId).map Prod.snd

structure FederationNonceCache where
  inner : PeerSlots
  touchCounter : Nat
  peerEvictions : Nat

/-- A row of federation_nonce_cache holds a blob of any length. -/
structure NonceRow where
  peerId : String
  fingerprint : Bytes
  lastTouch : Int
  deriving DecidableEq

abbrev NonceTable := Table fun row : NonceRow => (row.peerId, row.fingerprint)

/-- The cache lives until the process restarts and the table stays. -/
structure PersistentCache where
  cache : FederationNonceCache
  table : NonceTable

/-- The load keeps the newest fingerprints of a slot. -/
def loadFingerprint (slot : PeerNonceSlot) (fp : Digest) (touch : Nat) : PeerNonceSlot :=
  { (slot.popFront.1).pushBack fp with lastTouch := touch }

def touchOf (row : NonceRow) : Nat := (max row.lastTouch 0).toNat

/-- The load skips a blob that is no fingerprint. -/
def hydrateRow (slots : PeerSlots) (row : NonceRow) : PeerSlots :=
  if sized : row.fingerprint.length = 32 then
    let slot := (slotOf slots row.peerId).getD .empty
    slots.upsert (row.peerId, loadFingerprint slot ⟨row.fingerprint, sized⟩ (touchOf row))
  else slots

def maxTouch (touch : Nat) (row : NonceRow) : Nat :=
  if row.fingerprint.length = 32 then max touch (touchOf row) else touch

/-- The window numbers the rows of each peer from the newest one. -/
def pruneNonceCacheToPerPeerCap (table : NonceTable) (perPeerCap : Nat) : NonceTable :=
  table.delete fun row =>
    ((sortOn (fun other : NonceRow => -other.lastTouch)
      (table.rows.filter fun other => other.peerId = row.peerId)).drop perPeerCap).contains row

def hydrateFromDisk (table : NonceTable) : FederationNonceCache where
  inner := (sortOn NonceRow.lastTouch table.rows).foldl hydrateRow .empty
  touchCounter := min ((sortOn NonceRow.lastTouch table.rows).foldl maxTouch 0 + 1) (2 ^ 64 - 1)
  peerEvictions := 0

def newWithDbPersistence (table : NonceTable) : PersistentCache where
  cache := hydrateFromDisk table
  table := pruneNonceCacheToPerPeerCap table federationNonceCapacityPerPeer

/-- The column is signed and the counter is not. -/
def touchColumn (touch : Nat) : Int := (touch : Int).bmod (2 ^ 64)

def persistFingerprintAndEvict (table : NonceTable) (peerId : String) (fp : Digest) (lastTouch : Nat)
    (evictedFp : Option Digest) (evictedPeer : Option String) : NonceTable :=
  let inserted := table.upsert ⟨peerId, fp.1, touchColumn lastTouch⟩
  let trimmed := match evictedFp with
    | some evicted => inserted.delete fun row => row.peerId = peerId ∧ row.fingerprint = evicted.1
    | none => inserted
  match evictedPeer with
  | some evicted => trimmed.delete fun row => row.peerId = evicted
  | none => trimmed

/-- A new peer at the ceiling takes the place of the least recently touched one. -/
def evictPeer (cache : FederationNonceCache) (peerId : String) : FederationNonceCache × Option String :=
  if slotOf cache.inner peerId = none ∧ cache.inner.rows.length ≥ federationNonceMaxPeers then
    match cache.inner.rows.minOn? fun entry => entry.2.lastTouch with
    | some (evictId, _) =>
        ({ cache with
            inner := cache.inner.delete fun entry => entry.1 = evictId
            peerEvictions := (cache.peerEvictions + 1) % 2 ^ 64 }, some evictId)
    | none => (cache, none)
  else (cache, none)

structure NonceCall where
  peerId : String
  nonce : String

section Calls

variable (sha256 : Bytes → Digest)

def fingerprint (peerId nonce : String) : Digest :=
  let pid := peerId.toUTF8.data.toList
  let non := nonce.toUTF8.data.toList
  sha256 (beBytes 4 pid.length ++ pid ++ beBytes 4 non.length ++ non)

def recordAndCheck (state : PersistentCache) (call : NonceCall) : ReplayDecision × PersistentCache :=
  let fp := fingerprint sha256 call.peerId call.nonce
  let (cache, evictedPeer) := evictPeer state.cache call.peerId
  let touch := cache.touchCounter
  let cache := { cache with touchCounter := (touch + 1) % 2 ^ 64 }
  let slot : PeerNonceSlot := { (slotOf cache.inner call.peerId).getD .empty with lastTouch := touch }
  if fp ∈ slot.seen then
    -- The touch moves the slot in memory and leaves the table as it is.
    (.replay, { state with cache := { cache with inner := cache.inner.upsert (call.peerId, slot) } })
  else
    let (slot, evictedFp) := slot.popFront
    (.fresh, {
      cache := { cache with inner := cache.inner.upsert (call.peerId, slot.pushBack fp) }
      table := persistFingerprintAndEvict state.table call.peerId fp touch evictedFp evictedPeer })

def next (state : PersistentCache) (call : NonceCall) : PersistentCache :=
  (recordAndCheck sha256 state call).2

/-- The answers of a run of calls. -/
def answers : PersistentCache → List NonceCall → List ReplayDecision
  | _, [] => []
  | state, call :: rest =>
      (recordAndCheck sha256 state call).1 :: answers (next sha256 state call) rest

end Calls
end AiMemory.Replay
