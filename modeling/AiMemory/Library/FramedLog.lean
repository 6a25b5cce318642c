import Mathlib.Data.List.Basic

/-
This file develops logs of framed records that a scan reads up to the first torn frame.
-/

namespace AiMemory.Library

universe u v w
variable {Byte : Type u} {Record : Type v} {Source : Type w}
  (read : List Byte → Option (Record × List Byte))

/-- The scan takes frames off the front and leaves the bytes that hold no frame. -/
def scanFrames : Nat → List Byte → List Record × List Byte
  | 0, bytes => ([], bytes)
  | fuel + 1, bytes =>
      match read bytes with
      | none => ([], bytes)
      | some (record, rest) => ((scanFrames fuel rest).1.cons record, (scanFrames fuel rest).2)

/-- Each frame takes at least one byte. -/
def scan (bytes : List Byte) : List Record × List Byte := scanFrames read bytes.length bytes

variable {read}

/-- A scan that meets no frame leaves all the bytes. -/
theorem scan_torn {bytes : List Byte} (stops : read bytes = none) : scan read bytes = ([], bytes) := by
  unfold scan
  cases bytes.length with
  | zero => rfl
  | succ fuel => rw [scanFrames, stops]

/-- The scan reads the written records in order and stops at the torn bytes. -/
theorem scanFrames_append {write : Source → List Byte} {image : Source → Record} {sources : List Source}
    {torn : List Byte} {fuel : Nat}
    (reads : ∀ source ∈ sources, ∀ rest, read (write source ++ rest) = some (image source, rest))
    (stops : read torn = none) (enough : sources.length ≤ fuel) :
    scanFrames read fuel (sources.flatMap write ++ torn) = (sources.map image, torn) := by
  induction sources generalizing fuel with
  | nil =>
      cases fuel with
      | zero => rfl
      | succ fuel =>
          rw [List.flatMap_nil, List.nil_append, scanFrames, stops]
          rfl
  | cons source sources ih =>
      cases fuel with
      | zero => exact absurd enough (Nat.not_succ_le_zero _)
      | succ fuel =>
          have later := ih (fun other present => reads other (List.mem_cons_of_mem _ present))
            (Nat.le_of_succ_le_succ enough)
          have here := reads source List.mem_cons_self (sources.flatMap write ++ torn)
          rw [List.flatMap_cons, List.append_assoc, scanFrames, here]
          simp only [later, List.map_cons]

/-- A log of written records is read back up to its torn end. -/
theorem scan_append {write : Source → List Byte} {image : Source → Record} {sources : List Source}
    {torn : List Byte}
    (reads : ∀ source ∈ sources, ∀ rest, read (write source ++ rest) = some (image source, rest))
    (stops : read torn = none) (nonempty : ∀ source ∈ sources, write source ≠ []) :
    scan read (sources.flatMap write ++ torn) = (sources.map image, torn) := by
  apply scanFrames_append reads stops
  have many : ∀ rest : List Source, (∀ source ∈ rest, write source ≠ []) →
      rest.length ≤ (rest.flatMap write).length := by
    intro rest
    induction rest with
    | nil => exact fun _ => Nat.le_refl _
    | cons source rest ih =>
        intro filled
        have word := List.length_pos_iff.mpr (filled source List.mem_cons_self)
        have later := ih fun other present => filled other (List.mem_cons_of_mem _ present)
        rw [List.flatMap_cons, List.length_append, List.length_cons]
        omega
  rw [List.length_append]
  exact Nat.le_add_right_of_le (many sources nonempty)

end AiMemory.Library
