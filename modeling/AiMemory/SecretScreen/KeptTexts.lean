import AiMemory.Library.MarkedWords
import AiMemory.SecretScreen.Screen
import Mathlib.Tactic.IntervalCases

/-
This file follows the texts that the scans keep between the secrets that they mask.
-/

namespace AiMemory.SecretScreen
open AiMemory.Library

section Placeholder

def placeholderInner : List Char := "REDACTED:secret".toList

theorem redactionPlaceholder_eq : redactionPlaceholder = '[' :: (placeholderInner ++ [']']) := by decide

/-- The masked text has the placeholder between the texts that are kept. -/
def joinMasked (texts : List (List Char)) : List Char := redactionPlaceholder.intercalate texts

theorem joinMasked_cons_cons (first second : List Char) (rest : List (List Char)) :
    joinMasked (first :: second :: rest) =
      first ++ ('[' :: (placeholderInner ++ ']' :: joinMasked (second :: rest))) := by
  rw [joinMasked, List.intercalate_cons_cons, redactionPlaceholder_eq]
  simp [joinMasked, redactionPlaceholder_eq]

theorem joinMasked_cons {texts : List (List Char)} (first : List Char) (more : texts ≠ []) :
    joinMasked (first :: texts) = first ++ redactionPlaceholder ++ joinMasked texts := by
  rw [joinMasked, List.intercalate_cons_of_ne_nil more]
  rfl

/-- The join of two lists has a placeholder between them. -/
theorem joinMasked_append {first second : List (List Char)} (left : first ≠ []) (right : second ≠ []) :
    joinMasked (first ++ second) = joinMasked first ++ redactionPlaceholder ++ joinMasked second := by
  induction first with
  | nil => exact absurd rfl left
  | cons text rest ih =>
      cases rest with
      | nil =>
          rw [List.singleton_append, joinMasked_cons text right]
          simp [joinMasked]
      | cons next rest =>
          rw [List.cons_append, joinMasked_cons text (by simp), ih (List.cons_ne_nil _ _),
            joinMasked_cons text (List.cons_ne_nil _ _)]
          simp only [List.append_assoc]

theorem joinMasked_modifyHead {texts : List (List Char)} (before : List Char) (more : texts ≠ []) :
    joinMasked (texts.modifyHead fun first => before ++ first) = before ++ joinMasked texts := by
  cases texts with
  | nil => exact absurd rfl more
  | cons first rest =>
      cases rest with
      | nil => simp [joinMasked]
      | cons second rest => simp [joinMasked_cons_cons]

/-- Texts that are masked in parts are masked together. -/
theorem joinMasked_flatMap {texts : List (List Char)} {parts : List Char → List (List Char)}
    (some : ∀ text, parts text ≠ []) :
    joinMasked (texts.flatMap parts) = joinMasked (texts.map fun text => joinMasked (parts text)) := by
  induction texts with
  | nil => rfl
  | cons text rest ih =>
      cases rest with
      | nil => simp [joinMasked]
      | cons next rest =>
          have more : (next :: rest).flatMap parts ≠ [] := by simp [some next]
          rw [List.flatMap_cons, joinMasked_append (some text) more, ih]
          exact (joinMasked_cons _ (List.cons_ne_nil _ _)).symm

end Placeholder

section Regular

/-- The marker of a detector is a word outside of the placeholder, the secret after it is a part of the token there,
and a marker that starts inside of another one starts no secret of its own. -/
structure Detector.Regular (detector : Detector) : Prop where
  nonempty : detector.marker ≠ []
  opens : '[' ∉ detector.marker
  closes : ']' ∉ detector.marker
  outside : ¬ detector.marker <:+: placeholderInner
  stops : ∀ first letter rest, isTokenChar letter = false →
    detector.secretLen (first ++ letter :: rest) = detector.secretLen first
  bounded : ∀ after length, detector.secretLen after = some length → length ≤ after.length
  resumes : ∀ width < detector.marker.length, 0 < width → detector.marker.drop width <+: detector.marker →
    ∀ rest, detector.secretLen rest ≠ none →
      detector.secretLen (detector.marker.drop (detector.marker.length - width) ++ rest) ≠ none

/-- A token ends at a letter that no token has. -/
theorem tokenAt_append_cons (first : List Char) {letter : Char} (rest : List Char)
    (stop : isTokenChar letter = false) : tokenAt (first ++ letter :: rest) = tokenAt first := by
  induction first with
  | nil => simp [tokenAt, stop]
  | cons head first ih =>
      cases inside : isTokenChar head <;> simp_all [tokenAt]

theorem length_tokenAt (after : List Char) : (tokenAt after).length ≤ after.length :=
  (List.takeWhile_sublist _).length_le

theorem regular_prefixedDetector (highEntropy : List Char → Bool) (marker kind : String)
    (nonempty : marker.toList ≠ []) (opens : '[' ∉ marker.toList) (closes : ']' ∉ marker.toList)
    (outside : ¬ marker.toList <:+: placeholderInner)
    (borderless : ∀ width < marker.toList.length, 0 < width → ¬ marker.toList.drop width <+: marker.toList) :
    (prefixedDetector highEntropy marker kind).Regular where
  nonempty := nonempty
  opens := opens
  closes := closes
  outside := outside
  stops first letter rest stop := by simp only [prefixedDetector, tokenAt_append_cons first rest stop]
  bounded after length found := by
    simp only [prefixedDetector] at found
    split_ifs at found
    rw [← Option.some.inj found]
    exact length_tokenAt after
  resumes width short positive border := absurd border (borderless width short positive)

theorem regular_awsDetector : awsDetector.Regular where
  nonempty := by decide
  opens := by decide
  closes := by decide
  outside := by decide
  stops first letter rest stop := by simp only [awsDetector, tokenAt_append_cons first rest stop]
  bounded after length found := by
    simp only [awsDetector] at found
    split_ifs at found with key
    rw [← Option.some.inj found]
    exact key.1.trans (length_tokenAt after)
  resumes width short positive border rest key := by
    -- The only border is the last letter, and the three letters before it are upper case.
    have last : width = 3 := by
      change width < 4 at short
      interval_cases width
      · exact absurd border (by decide)
      · exact absurd border (by decide)
      · rfl
    subst last
    have longer : tokenAt ("AKIA".toList.drop ("AKIA".toList.length - 3) ++ rest) =
        'K' :: 'I' :: 'A' :: tokenAt rest := rfl
    simp only [awsDetector, longer] at key ⊢
    split_ifs at key with body
    · have upper := List.all_eq_true.mp body.2
      rw [if_pos]
      · exact Option.some_ne_none _
      · refine ⟨by simp only [List.length_cons]; omega, List.all_eq_true.mpr ?_⟩
        intro letter present
        simp only [awsKeyBodyLen, List.take_succ_cons, List.mem_cons] at present
        rcases present with rfl | rfl | rfl | later
        · rfl
        · rfl
        · rfl
        · exact upper letter ((List.take_subset_take_left _ (by decide)) later)
    · exact absurd rfl key

theorem regular_jwtDetector : jwtDetector.Regular where
  nonempty := by decide
  opens := by decide
  closes := by decide
  outside := by decide
  stops first letter rest stop := by simp only [jwtDetector, tokenAt_append_cons first rest stop]
  bounded after length found := by
    simp only [jwtDetector] at found
    split_ifs at found
    rw [← Option.some.inj found]
    exact length_tokenAt after
  resumes width short positive border := by
    change width < 3 at short
    interval_cases width
    · exact absurd border (by decide)
    · exact absurd border (by decide)

/-- Every detector of the screen is regular. -/
theorem regular_of_mem {highEntropy : List Char → Bool} {detector : Detector}
    (listed : detector ∈ detectors highEntropy) : detector.Regular := by
  simp only [detectors, List.mem_cons, List.not_mem_nil, or_false] at listed
  rcases listed with rfl | rfl | rfl | rfl | rfl | rfl | rfl
  · apply regular_prefixedDetector <;> decide
  · apply regular_prefixedDetector <;> decide
  · apply regular_prefixedDetector <;> decide
  · apply regular_prefixedDetector <;> decide
  · apply regular_prefixedDetector <;> decide
  · exact regular_awsDetector
  · exact regular_jwtDetector

end Regular

section Split

variable {marker text before after : List Char}

/-- The split is at the first marker, which has the longest text after it. -/
theorem splitMarker_some (found : splitMarker marker text = some (before, after)) :
    text = before ++ (marker ++ after) ∧ ∀ rest, marker ++ rest <:+ text → rest.length ≤ after.length := by
  induction text generalizing before with
  | nil => contradiction
  | cons char text ih =>
      unfold splitMarker at found
      split_ifs at found with starts
      · obtain ⟨rfl, rfl⟩ := Prod.mk.inj (Option.some.inj found)
        obtain ⟨rest, same⟩ := starts
        rw [← same, List.drop_left]
        refine ⟨rfl, fun other occurs => ?_⟩
        have width := occurs.length_le
        simp only [List.length_append] at width
        omega
      · obtain ⟨⟨earlier, later⟩, split, same⟩ := Option.map_eq_some_iff.mp found
        obtain ⟨rfl, rfl⟩ := Prod.mk.inj same
        obtain ⟨rfl, first⟩ := ih split
        refine ⟨rfl, fun rest occurs => ?_⟩
        rcases List.suffix_cons_iff.mp occurs with here | there
        · exact absurd ⟨rest, here⟩ starts
        · exact first rest there

/-- A marker is missing exactly when no end of the text starts with it. -/
theorem splitMarker_none (nonempty : marker ≠ []) :
    splitMarker marker text = none ↔ ∀ rest, ¬ marker ++ rest <:+ text := by
  induction text with
  | nil => simp [splitMarker, nonempty]
  | cons char text ih =>
      unfold splitMarker
      split_ifs with starts
      · refine iff_of_false (by simp) fun absent => ?_
        obtain ⟨rest, same⟩ := starts
        exact absent rest (same ▸ List.suffix_refl _)
      · rw [Option.map_eq_none_iff, ih]
        constructor
        · intro absent rest occurs
          rcases List.suffix_cons_iff.mp occurs with here | there
          · exact starts ⟨rest, here⟩
          · exact absent rest there
        · exact fun absent rest occurs => absent rest (occurs.trans (List.suffix_cons _ _))

/-- A split before a letter outside of the marker is a split of the text up to the letter. -/
theorem splitMarker_append_cons {letter : Char} (apart : letter ∉ marker) (first second : List Char)
    (nonempty : marker ≠ []) :
    splitMarker marker (first ++ letter :: second) =
      match splitMarker marker first with
      | some (before, after) => some (before, after ++ letter :: second)
      | none => (splitMarker marker second).map fun (before, after) => (first ++ letter :: before, after) := by
  induction first with
  | nil =>
      have starts : ¬ marker <+: letter :: second := fun starts =>
        nonempty (List.prefix_nil.mp ((@prefix_append_cons_iff Char marker [] second letter apart).mp starts))
      simp [splitMarker, starts]
  | cons char first ih =>
      have same := @prefix_append_cons_iff Char marker (char :: first) second letter apart
      rw [List.cons_append] at same
      rw [List.cons_append, splitMarker, splitMarker, ih]
      by_cases starts : marker <+: char :: first
      · rw [if_pos starts, if_pos (same.mpr starts), ← List.cons_append,
          List.drop_append_of_le_length starts.length_le]
      · rw [if_neg starts, if_neg fun whole => starts (same.mp whole)]
        cases splitMarker marker first with
        | some split => rfl
        | none => cases splitMarker marker second <;> rfl

end Split

section Scan

variable {marker : List Char} {secretLen : List Char → Option Nat}

/-- A round leaves a shorter text. -/
theorem length_after {before after text : List Char} (nonempty : marker ≠ [])
    (found : splitMarker marker text = some (before, after)) : after.length < text.length := by
  have width := congrArg List.length (splitMarker_some found).1
  have positive := List.length_pos_iff.mpr nonempty
  simp only [List.length_append] at width
  omega

/-- More rounds than characters change nothing. -/
theorem redactMarked_enough (nonempty : marker ≠ []) {rounds : Nat} {text : List Char}
    (enough : text.length ≤ rounds) (more : Nat) :
    redactMarked marker secretLen (rounds + more) text = redactMarked marker secretLen rounds text := by
  induction rounds generalizing text with
  | zero =>
      obtain rfl : text = [] := List.length_eq_zero_iff.mp (Nat.le_zero.mp enough)
      cases 0 + more <;> rfl
  | succ rounds ih =>
      rw [Nat.succ_add_eq_add_succ, Nat.add_succ, redactMarked, redactMarked]
      cases found : splitMarker marker text with
      | none => rfl
      | some split =>
          obtain ⟨before, after⟩ := split
          have shorter := length_after nonempty found
          cases read : secretLen after with
          | some length =>
              have rest := @ih (after.drop length) (by rw [List.length_drop]; omega)
              simp only [read, rest]
          | none =>
              have rest := @ih after (by omega)
              simp only [read, rest]

/-- The scan of a text with a letter that neither a marker nor a token has is the scan of its two sides. -/
theorem redactMarked_append_cons {detector : Detector} (regular : detector.Regular) {letter : Char}
    (apart : letter ∉ detector.marker) (stop : isTokenChar letter = false) {rounds : Nat}
    {first second : List Char} (enough : (first ++ letter :: second).length ≤ rounds) :
    (redactMarked detector.marker detector.secretLen rounds (first ++ letter :: second)).1 =
      (redactMarked detector.marker detector.secretLen rounds first).1 ++
        letter :: (redactMarked detector.marker detector.secretLen rounds second).1 := by
  induction rounds generalizing first with
  | zero => simp at enough
  | succ rounds ih =>
      have width : first.length + second.length ≤ rounds := by
        simp only [List.length_append, List.length_cons] at enough
        omega
      have later := @redactMarked_enough detector.marker detector.secretLen regular.nonempty rounds second
        (by omega) 1
      rw [redactMarked, splitMarker_append_cons apart first second regular.nonempty, redactMarked]
      cases found : splitMarker detector.marker first with
      | none =>
          rw [redactMarked]
          cases splitMarker detector.marker second with
          | none => rfl
          | some split =>
              obtain ⟨before, after⟩ := split
              dsimp only [Option.map_some]
              cases detector.secretLen after <;> simp
      | some split =>
          obtain ⟨before, after⟩ := split
          have shorter := length_after regular.nonempty found
          dsimp only
          rw [regular.stops after letter second stop, later]
          cases read : detector.secretLen after with
          | none =>
              have rest := @ih after (by simp only [List.length_append, List.length_cons]; omega)
              simp only [rest, List.append_assoc]
          | some length =>
              have within := regular.bounded after length read
              have rest := @ih (after.drop length)
                (by simp only [List.length_append, List.length_cons, List.length_drop]; omega)
              simp only [List.drop_append_of_le_length within, rest, List.append_assoc]

end Scan

section Kept

/-- The texts that a scan keeps before, between and after the secrets that it masks. -/
def keptTexts (marker : List Char) (secretLen : List Char → Option Nat) : Nat → List Char → List (List Char)
  | 0, text => [text]
  | rounds + 1, text =>
      match splitMarker marker text with
      | none => [text]
      | some (before, after) =>
          match secretLen after with
          | some length => before :: keptTexts marker secretLen rounds (after.drop length)
          | none => (keptTexts marker secretLen rounds after).modifyHead fun first => before ++ marker ++ first

variable {marker : List Char} {secretLen : List Char → Option Nat} {rounds : Nat} {text : List Char}

/-- The first text that is kept starts the text, and it is the whole text when nothing is masked. -/
theorem keptTexts_cons : ∃ first rest, keptTexts marker secretLen rounds text = first :: rest ∧ first <+: text ∧
    (rest = [] → first = text) := by
  fun_induction keptTexts marker secretLen rounds text with
  | case1 text => exact ⟨text, [], rfl, List.prefix_refl _, fun _ => rfl⟩
  | case2 rounds text found => exact ⟨text, [], rfl, List.prefix_refl _, fun _ => rfl⟩
  | case3 rounds text before after found length read ih =>
      obtain ⟨first, rest, kept, _⟩ := ih
      refine ⟨before, _, rfl, ⟨_, (splitMarker_some found).1.symm⟩, fun none => ?_⟩
      rw [kept] at none
      contradiction
  | case4 rounds text before after found read ih =>
      obtain ⟨first, rest, kept, starts, whole⟩ := ih
      rw [kept, (splitMarker_some found).1, ← List.append_assoc]
      exact ⟨_, rest, rfl, (List.prefix_append_right_inj _).mpr starts, fun none => by rw [whole none]⟩

theorem keptTexts_ne_nil : keptTexts marker secretLen rounds text ≠ [] := by
  obtain ⟨first, rest, kept, _⟩ := @keptTexts_cons marker secretLen rounds text
  rw [kept]
  exact List.cons_ne_nil _ _

/-- The scan puts the placeholder between the texts that it keeps. -/
theorem redactMarked_eq : redactMarked marker secretLen rounds text =
    (joinMasked (keptTexts marker secretLen rounds text),
      decide (1 < (keptTexts marker secretLen rounds text).length)) := by
  fun_induction keptTexts marker secretLen rounds text with
  | case1 text => simp [redactMarked, joinMasked]
  | case2 rounds text found => simp [redactMarked, found, joinMasked]
  | case3 rounds text before after found length read ih =>
      have positive := List.length_pos_iff.mpr (@keptTexts_ne_nil marker secretLen rounds (after.drop length))
      rw [joinMasked_cons before keptTexts_ne_nil]
      simp [redactMarked, found, read, ih, positive]
  | case4 rounds text before after found read ih =>
      rw [joinMasked_modifyHead (before ++ marker) keptTexts_ne_nil]
      simp [redactMarked, found, read, ih]

/-- The texts that are kept are parts of the text, and the last one is its end. -/
theorem keptTexts_parts : (∀ part ∈ keptTexts marker secretLen rounds text, part <:+: text) ∧
    ∀ part ∈ (keptTexts marker secretLen rounds text).getLast?, part <:+ text := by
  fun_induction keptTexts marker secretLen rounds text with
  | case1 text => simp
  | case2 rounds text found => simp
  | case3 rounds text before after found length read ih =>
      obtain ⟨parts, last⟩ := ih
      have same := (splitMarker_some found).1
      have ends : after.drop length <:+ text :=
        (List.drop_suffix length after).trans ⟨before ++ marker, by rw [same, List.append_assoc]⟩
      constructor
      · intro part present
        rcases List.mem_cons.mp present with rfl | listed
        · exact ⟨[], marker ++ after, by rw [same, List.nil_append]⟩
        · exact (parts part listed).trans ends.isInfix
      · intro part present
        rw [List.getLast?_cons_of_ne_nil keptTexts_ne_nil] at present
        exact (last part present).trans ends
  | case4 rounds text before after found read ih =>
      obtain ⟨parts, last⟩ := ih
      obtain ⟨first, rest, kept, starts, whole⟩ := @keptTexts_cons marker secretLen rounds after
      have same := (splitMarker_some found).1
      have ends : after <:+ text := ⟨before ++ marker, by rw [same, List.append_assoc]⟩
      rw [kept] at parts last ⊢
      constructor
      · intro part present
        rcases List.mem_cons.mp present with rfl | listed
        · rw [same, ← List.append_assoc]
          exact ((List.prefix_append_right_inj _).mpr starts).isInfix
        · exact (parts part (List.mem_cons_of_mem _ listed)).trans ends.isInfix
      · intro part present
        cases rest with
        | nil =>
            rw [List.modifyHead_cons, List.getLast?_singleton, Option.mem_some_iff] at present
            rw [← present, whole rfl, same, List.append_assoc]
        | cons next rest =>
            rw [List.modifyHead_cons, List.getLast?_cons_cons] at present
            exact (last part (by rwa [List.getLast?_cons_cons])).trans ends

end Kept
end AiMemory.SecretScreen
