import AiMemory.SecretScreen.KeptTexts

/-
This file decides when the screen finds a secret in a text that it has masked.
-/

namespace AiMemory.SecretScreen
open AiMemory.Library

section Bare

/-- A marker that counts wherever it stands. -/
def bareWord (marker : List Char) : MarkedWord Char where
  marker := marker
  inside _ := false
  accepts _ := True
  stops _ _ _ _ := Iff.rfl

/-- A text is free of a marker exactly when it does not contain it. -/
theorem absent_bareWord_iff {marker text : List Char} (nonempty : marker ≠ []) :
    (bareWord marker).Absent text ↔ contains marker text = false := by
  rw [contains, Option.isSome_eq_false_iff, Option.isNone_iff_eq_none, splitMarker_none nonempty]
  simp [MarkedWord.Absent, bareWord]

/-- A part of a text without the marker has none. -/
theorem absent_part {marker text part : List Char} (absent : (bareWord marker).Absent text)
    (within : part <:+: text) : (bareWord marker).Absent part := by
  rintro rest ⟨head, rfl⟩ _
  obtain ⟨before, after, rfl⟩ := within
  exact absent (rest ++ after) ⟨before ++ head, by simp only [List.append_assoc]⟩ trivial

/-- Nothing before the first marker contains it. -/
theorem absent_before_marker {marker text before after : List Char} (nonempty : marker ≠ [])
    (found : splitMarker marker text = some (before, after)) : (bareWord marker).Absent before := by
  intro rest (occurs : marker ++ rest <:+ before) _
  obtain ⟨rfl, longest⟩ := splitMarker_some found
  have later := longest (rest ++ (marker ++ after))
    (by simpa only [List.append_assoc] using suffix_append_right occurs (marker ++ after))
  have positive := List.length_pos_iff.mpr nonempty
  simp only [List.length_append] at later
  omega

end Bare

section Passes

variable {detector : Detector} (regular : detector.Regular)

/-- A marker with a secret after it. -/
def Detector.Regular.word : MarkedWord Char where
  marker := detector.marker
  inside := isTokenChar
  accepts rest := detector.secretLen rest ≠ none
  stops first letter rest stop := by rw [regular.stops first letter rest stop]

variable {regular} {before after first text : List Char} {rounds : Nat}

/-- A secret behind a marker that the scan passes over is a later one, or it starts in the marker itself. -/
theorem occurs_passed (regular : detector.Regular)
    (found : splitMarker detector.marker text = some (before, after)) (starts : first <+: after) {rest : List Char}
    (occurs : detector.marker ++ rest <:+ before ++ detector.marker ++ first)
    (secret : detector.secretLen rest ≠ none) :
    detector.marker ++ rest <:+ first ∨ detector.secretLen first ≠ none ∧ rest <:+ first := by
  obtain ⟨more, rfl⟩ := starts
  obtain ⟨rfl, longest⟩ := splitMarker_some found
  have later : detector.marker ++ (rest ++ more) <:+ before ++ (detector.marker ++ (first ++ more)) := by
    simpa only [List.append_assoc] using suffix_append_right occurs more
  have width := longest _ later
  simp only [List.length_append] at width
  obtain ⟨head, same⟩ : detector.marker ++ rest <:+ detector.marker ++ first := by
    apply List.suffix_of_suffix_length_le occurs ⟨before, (List.append_assoc _ _ _).symm⟩
    simp only [List.length_append]
    omega
  by_cases short : head.length < detector.marker.length
  · obtain ⟨border, overlap⟩ := border_of_overlap same.symm short.le
    refine .inr ⟨?_, overlap ▸ List.suffix_append _ _⟩
    cases head with
    | nil =>
        rw [List.nil_append, List.append_cancel_left_eq] at same
        rwa [← same]
    | cons letter head =>
        rw [overlap]
        exact regular.resumes _ short (by simp) border rest secret
  · obtain ⟨between, rfl⟩ : detector.marker <+: head :=
      List.prefix_of_prefix_length_le ⟨first, rfl⟩ ⟨_, same⟩ (by omega)
    rw [List.append_assoc, List.append_cancel_left_eq] at same
    exact .inl ⟨between, same⟩

/-- The text before the first marker has no secret. -/
theorem absent_before (found : splitMarker detector.marker text = some (before, after)) :
    regular.word.Absent before :=
  fun rest occurs _ => absent_before_marker regular.nonempty found rest occurs trivial

/-- The scan leaves a secret only where it cuts a token that it has passed over. -/
theorem settled_keptTexts (enough : text.length ≤ rounds) :
    regular.word.Settled (keptTexts detector.marker detector.secretLen rounds text) := by
  fun_induction keptTexts detector.marker detector.secretLen rounds text with
  | case1 text =>
      obtain rfl : text = [] := List.length_eq_zero_iff.mp (Nat.le_zero.mp enough)
      refine .singleton fun rest occurs _ => regular.nonempty ?_
      exact (List.append_eq_nil_iff.mp (List.suffix_nil.mp occurs)).1
  | case2 rounds text found =>
      exact .singleton fun rest occurs _ => (splitMarker_none regular.nonempty).mp found rest occurs
  | case3 rounds text before after found length read ih =>
      have shorter := length_after regular.nonempty found
      refine .cons keptTexts_ne_nil (absent_before found).atEnd (ih ?_)
      rw [List.length_drop]
      omega
  | case4 rounds text before after found read ih =>
      have shorter := length_after regular.nonempty found
      have settled := ih (by omega)
      obtain ⟨first, rest, kept, starts, whole⟩ :=
        @keptTexts_cons detector.marker detector.secretLen rounds after
      rw [kept] at settled ⊢
      obtain ⟨more, same⟩ := starts
      have atEnd : regular.word.AtEnd (before ++ detector.marker ++ first) := by
        intro rest occurs secret letter present
        rcases occurs_passed regular found ⟨more, same⟩ occurs secret with later | ⟨cut, ends⟩
        · exact settled.atEnd first List.mem_cons_self rest later secret letter present
        · have refused : ¬ regular.word.accepts (first ++ more) := by
            rw [same]
            exact fun secret => secret read
          exact MarkedWord.inside_of_cut cut refused letter (ends.subset present)
      cases rest with
      | nil =>
          refine .singleton fun rest occurs secret => ?_
          have firstAbsent := settled.last first (by simp)
          rcases occurs_passed regular found ⟨more, same⟩ occurs secret with later | ⟨cut, _⟩
          · exact firstAbsent rest later secret
          · exact cut (whole rfl ▸ read)
      | cons next rest =>
          refine .cons (List.cons_ne_nil _ _) atEnd ⟨fun text listed => ?_, ?_⟩
          · exact settled.atEnd text (List.mem_cons_of_mem _ listed)
          · have last := settled.last
            rwa [List.getLast?_cons_cons] at last

end Passes

section Joined

/-- A word without brackets and outside of the placeholder is absent from a masked text when no text that is kept
has it. -/
theorem absent_joinMasked_iff {marked : MarkedWord Char} (nonempty : marked.marker ≠ []) (opens : '[' ∉ marked.marker)
    (closes : ']' ∉ marked.marker) (outside : ¬ marked.marker <:+: placeholderInner)
    (stop : marked.inside '[' = false) (texts : List (List Char)) :
    marked.Absent (joinMasked texts) ↔ ∀ text ∈ texts, marked.Absent text := by
  induction texts with
  | nil =>
      refine iff_of_true (fun rest occurs _ => nonempty ?_) (by simp)
      exact (List.append_eq_nil_iff.mp (List.suffix_nil.mp occurs)).1
  | cons text rest ih =>
      cases rest with
      | nil => simp [joinMasked]
      | cons next rest =>
          rw [joinMasked_cons_cons, MarkedWord.absent_bracketed_iff opens closes outside stop, ih]
          exact List.forall_mem_cons.symm

variable {detector : Detector}

/-- The texts that the scan of a whole text keeps. -/
def Detector.kept (detector : Detector) (text : List Char) : List (List Char) :=
  keptTexts detector.marker detector.secretLen text.length text

/-- The scan of a whole text. -/
def Detector.masked (detector : Detector) (text : List Char) : List Char :=
  (redactMarked detector.marker detector.secretLen text.length text).1

theorem kept_ne_nil (text : List Char) : detector.kept text ≠ [] := keptTexts_ne_nil

/-- A detector puts the placeholder between the texts that it keeps. -/
theorem masked_eq (detector : Detector) (text : List Char) :
    detector.masked text = joinMasked (detector.kept text) := by
  rw [Detector.masked, redactMarked_eq, Detector.kept]

/-- A text is masked before and after a letter that ends every token. -/
theorem masked_append_cons (regular : detector.Regular) {letter : Char} (apart : letter ∉ detector.marker)
    (stop : isTokenChar letter = false) (first second : List Char) :
    detector.masked (first ++ letter :: second) = detector.masked first ++ letter :: detector.masked second := by
  have left := @redactMarked_enough detector.marker detector.secretLen regular.nonempty first.length first le_rfl
    (second.length + 1)
  have right := @redactMarked_enough detector.marker detector.secretLen regular.nonempty second.length second le_rfl
    (first.length + 1)
  have width : (first ++ letter :: second).length = first.length + (second.length + 1) := by simp
  have other : first.length + (second.length + 1) = second.length + (first.length + 1) := by omega
  rw [Detector.masked, redactMarked_append_cons regular apart stop le_rfl, width, left, other, right]
  rfl

/-- A text without a secret is kept whole. -/
theorem kept_of_absent (regular : detector.Regular) {rounds : Nat} {text : List Char}
    (absent : regular.word.Absent text) : keptTexts detector.marker detector.secretLen rounds text = [text] := by
  fun_induction keptTexts detector.marker detector.secretLen rounds text with
  | case1 text => rfl
  | case2 rounds text found => rfl
  | case3 rounds text before after found length read ih =>
      obtain ⟨rfl, _⟩ := splitMarker_some found
      exact absurd (by simp [Detector.Regular.word, read]) (absent after (List.suffix_append _ _))
  | case4 rounds text before after found read ih =>
      obtain ⟨rfl, _⟩ := splitMarker_some found
      have ends : after <:+ before ++ (detector.marker ++ after) :=
        List.suffix_append_of_suffix (List.suffix_append _ _)
      rw [ih (absent.suffix ends)]
      simp

/-- A scan finds nothing exactly in a text without a secret. -/
theorem unhit_iff_absent (regular : detector.Regular) (text : List Char) :
    (redactMarked detector.marker detector.secretLen text.length text).2 = false ↔ regular.word.Absent text := by
  rw [redactMarked_eq, decide_eq_false_iff_not]
  constructor
  · intro single
    have settled := @settled_keptTexts detector regular text text.length le_rfl
    obtain ⟨first, rest, kept, _, whole⟩ :=
      @keptTexts_cons detector.marker detector.secretLen text.length text
    rw [kept] at single settled
    obtain rfl : rest = [] := by
      cases rest with
      | nil => rfl
      | cons next rest => simp at single
    exact whole rfl ▸ settled.last first (by simp)
  · intro absent
    rw [kept_of_absent regular absent]
    simp

/-- A pass over a masked text keeps parts of the texts that were kept before. -/
theorem masked_joinMasked (regular : detector.Regular) (texts : List (List Char)) :
    detector.masked (joinMasked texts) = joinMasked (texts.flatMap detector.kept) := by
  have inner : detector.masked placeholderInner = placeholderInner := by
    have absent : regular.word.Absent placeholderInner := by
      rintro rest ⟨before, same⟩ _
      exact regular.outside ⟨before, rest, by rw [List.append_assoc]; exact same⟩
    rw [masked_eq, Detector.kept, kept_of_absent regular absent]
    simp [joinMasked]
  rw [joinMasked_flatMap kept_ne_nil]
  induction texts with
  | nil => rfl
  | cons text rest ih =>
      cases rest with
      | nil =>
          rw [show joinMasked [text] = text from List.intercalate_singleton, masked_eq]
          exact List.intercalate_singleton.symm
      | cons next rest =>
          rw [joinMasked_cons_cons, masked_append_cons regular regular.opens rfl,
            masked_append_cons regular regular.closes rfl, inner, ih, masked_eq]
          exact (joinMasked_cons_cons _ _ _).symm

end Joined

section AllDetectors

variable {detector : Detector} {remaining : List Detector} {texts : List (List Char)}

/-- The texts that are kept by one detector after the other. -/
def keptByAll (remaining : List Detector) (texts : List (List Char)) : List (List Char) :=
  remaining.foldl (fun texts detector => texts.flatMap detector.kept) texts

/-- A detector masks joined texts one by one. -/
theorem detect_joinMasked (regular : detector.Regular) {found : List Char × List String}
    (joined : found.1 = joinMasked texts) : (detect found detector).1 = joinMasked (texts.flatMap detector.kept) := by
  rw [← masked_joinMasked regular, ← joined]
  unfold detect
  cases hit : (redactMarked detector.marker detector.secretLen found.1.length found.1).2 with
  | true =>
      simp only [hit, if_true]
      rfl
  | false =>
      have absent := (unhit_iff_absent regular found.1).mp hit
      simp only [hit, Bool.false_eq_true, if_false]
      rw [masked_eq, Detector.kept, kept_of_absent regular absent]
      exact List.intercalate_singleton.symm

/-- The detectors mask joined texts one by one. -/
theorem foldl_detect_joinMasked (regular : ∀ detector ∈ remaining, detector.Regular)
    {found : List Char × List String} (joined : found.1 = joinMasked texts) :
    (remaining.foldl detect found).1 = joinMasked (keptByAll remaining texts) := by
  induction remaining generalizing found texts with
  | nil => exact joined
  | cons detector remaining ih =>
      obtain ⟨first, rest⟩ := List.forall_mem_cons.mp regular
      exact ih rest (detect_joinMasked first joined)

/-- Later passes keep what an earlier one has settled. -/
theorem settled_keptByAll_of_settled {marked : MarkedWord Char} (settled : marked.Settled texts) :
    marked.Settled (keptByAll remaining texts) := by
  induction remaining generalizing texts with
  | nil => exact settled
  | cons detector remaining ih =>
      exact ih (settled.flatMap kept_ne_nil (fun text => keptTexts_parts.1) fun text => keptTexts_parts.2)

/-- The texts that all detectors keep are settled for each of them. -/
theorem settled_keptByAll (regular : detector.Regular) (listed : detector ∈ remaining) :
    regular.word.Settled (keptByAll remaining texts) := by
  induction remaining generalizing texts with
  | nil => cases listed
  | cons first remaining ih =>
      rcases List.mem_cons.mp listed with rfl | later
      · show regular.word.Settled (keptByAll remaining (texts.flatMap detector.kept))
        apply settled_keptByAll_of_settled
        exact .of_parts kept_ne_nil fun text _ => settled_keptTexts le_rfl
      · exact ih later

/-- Every kept text is a part of one that was given. -/
theorem keptByAll_parts {part : List Char} (listed : part ∈ keptByAll remaining texts) :
    ∃ text ∈ texts, part <:+: text := by
  induction remaining generalizing texts with
  | nil => exact ⟨part, listed, List.infix_refl _⟩
  | cons detector remaining ih =>
      obtain ⟨middle, kept, within⟩ := ih listed
      obtain ⟨text, present, taken⟩ := List.mem_flatMap.mp kept
      exact ⟨text, present, within.trans (keptTexts_parts.1 middle taken)⟩

end AllDetectors

section Pem

/-- The texts between the key blocks that the loop masks. -/
def keptPemTexts (content : List Char) : Nat → List Char → Option (List (List Char))
  | 0, _ => none
  | fuel + 1, rest =>
      match splitMarker pemBeginMarker rest with
      | none => some [rest]
      | some (before, block) =>
          match (splitMarker pemPrivateKeyMarker block).bind fun header =>
            splitMarker pemPrivateKeyMarker header.2 with
          | none => some [before, []]
          | some (_, after) =>
              (sliceFrom (byteLen rest - byteLen after) content).bind fun remaining =>
                (keptPemTexts content fuel remaining).map (before :: ·)

variable {content : List Char} {fuel : Nat}

theorem keptPemTexts_ne_nil {rest : List Char} {texts : List (List Char)}
    (kept : keptPemTexts content fuel rest = some texts) : texts ≠ [] := by
  fun_induction keptPemTexts content fuel rest with
  | case1 rest => cases kept
  | case2 fuel rest found => simp [← Option.some.inj kept]
  | case3 fuel rest before block found truncated => simp [← Option.some.inj kept]
  | case4 fuel rest before block found header after closed ih =>
      obtain ⟨remaining, _, later⟩ := Option.bind_eq_some_iff.mp kept
      obtain ⟨others, _, rfl⟩ := Option.map_eq_some_iff.mp later
      exact List.cons_ne_nil _ _

/-- The blocks are masked between the texts that are kept. -/
theorem redactPemBlocks_eq (rest out : List Char) : redactPemBlocks content fuel rest out =
    (keptPemTexts content fuel rest).map fun texts => out ++ joinMasked texts := by
  fun_induction keptPemTexts content fuel rest generalizing out with
  | case1 rest => rfl
  | case2 fuel rest found => simp [redactPemBlocks, found, joinMasked]
  | case3 fuel rest before block found truncated =>
      simp [redactPemBlocks, found, truncated, joinMasked]
  | case4 fuel rest before block found header after closed ih =>
      simp only [redactPemBlocks, found, closed]
      cases sliceFrom (byteLen rest - byteLen after) content with
      | none => rfl
      | some remaining =>
          rw [Option.bind_some, Option.bind_some, ih, Option.map_map]
          cases kept : keptPemTexts content fuel remaining with
          | none => rfl
          | some texts => simp [joinMasked_cons before (keptPemTexts_ne_nil kept)]

/-- No text between the blocks begins another one. -/
theorem keptPemTexts_absent {rest : List Char} {texts : List (List Char)}
    (kept : keptPemTexts content fuel rest = some texts) :
    ∀ text ∈ texts, (bareWord pemBeginMarker).Absent text := by
  have nonempty : pemBeginMarker ≠ [] := by decide
  fun_induction keptPemTexts content fuel rest generalizing texts with
  | case1 rest => cases kept
  | case2 fuel rest found =>
      rw [← Option.some.inj kept, List.forall_mem_singleton]
      exact fun other occurs _ => (splitMarker_none nonempty).mp found other occurs
  | case3 fuel rest before block found truncated =>
      rw [← Option.some.inj kept, List.forall_mem_cons, List.forall_mem_singleton]
      refine ⟨absent_before_marker nonempty found, fun other occurs _ => nonempty ?_⟩
      exact (List.append_eq_nil_iff.mp (List.suffix_nil.mp occurs)).1
  | case4 fuel rest before block found header after closed ih =>
      obtain ⟨remaining, _, later⟩ := Option.bind_eq_some_iff.mp kept
      obtain ⟨others, keptLater, rfl⟩ := Option.map_eq_some_iff.mp later
      exact List.forall_mem_cons.mpr ⟨absent_before_marker nonempty found, ih remaining keptLater⟩

end Pem

section Redacted

variable (highEntropy : List Char → Bool)

/-- The texts that the screen leaves between the secrets of its input. -/
def unmaskedTexts (fuel : Nat) (content : String) : Option (List (List Char)) :=
  let text := content.toList
  let start := if hasPemBlock text then keptPemTexts text fuel text else some [text]
  start.map (keptByAll (detectors highEntropy))

/-- The text ends in a marker with a secret after it. -/
def Detector.endsInSecret (detector : Detector) (text : List Char) : Bool :=
  text.tails.any fun tail =>
    let rest := tail.drop detector.marker.length
    detector.marker.isPrefixOf tail && rest.all isTokenChar && (detector.secretLen rest).isSome

/-- A masked secret follows directly on the marker and the first letters of a token, and these letters are a secret
for the detector of the marker. -/
def cutShort (fuel : Nat) (content : String) : Bool :=
  (unmaskedTexts highEntropy fuel content).any fun texts =>
    texts.dropLast.any fun text => (detectors highEntropy).any fun detector => detector.endsInSecret text

variable {highEntropy} {fuel : Nat} {content redacted : String} {kinds : List String} {texts : List (List Char)}

/-- A text ends in a secret exactly when a token of its marker reaches its end. -/
theorem endsInSecret_iff {detector : Detector} {text : List Char} : detector.endsInSecret text = true ↔
    ∃ rest, detector.marker ++ rest <:+ text ∧ (∀ letter ∈ rest, isTokenChar letter = true) ∧
      detector.secretLen rest ≠ none := by
  simp only [Detector.endsInSecret, List.any_eq_true, List.mem_tails, Bool.and_eq_true, List.isPrefixOf_iff_prefix,
    List.all_eq_true, Option.isSome_iff_ne_none]
  constructor
  · rintro ⟨tail, ends, ⟨⟨rest, rfl⟩, inside⟩, secret⟩
    rw [List.drop_left] at inside secret
    exact ⟨rest, ends, inside, secret⟩
  · rintro ⟨rest, ends, inside, secret⟩
    refine ⟨_, ends, ⟨List.prefix_append _ _, ?_⟩, ?_⟩
    · rwa [List.drop_left]
    · rwa [List.drop_left]

/-- The redacted text has the placeholder between the texts that the screen leaves. -/
theorem redacted_eq (hit : screen highEntropy fuel content = some (.hit kinds redacted)) :
    ∃ texts, unmaskedTexts highEntropy fuel content = some texts ∧ redacted.toList = joinMasked texts := by
  unfold screen at hit
  obtain ⟨found, started, outcome⟩ := Option.map_eq_some_iff.mp hit
  obtain ⟨start, begun, joined⟩ : ∃ start,
      (if hasPemBlock content.toList then keptPemTexts content.toList fuel content.toList
        else some [content.toList]) = some start ∧ found.1 = joinMasked start := by
    by_cases pem : hasPemBlock content.toList = true
    · rw [if_pos pem] at started ⊢
      obtain ⟨masked, blocks, rfl⟩ := Option.map_eq_some_iff.mp started
      rw [redactPemBlocks_eq] at blocks
      obtain ⟨start, kept, rfl⟩ := Option.map_eq_some_iff.mp blocks
      exact ⟨start, kept, rfl⟩
    · rw [if_neg pem] at started ⊢
      obtain rfl := Option.some.inj started
      exact ⟨_, rfl, List.intercalate_singleton.symm⟩
  refine ⟨keptByAll (detectors highEntropy) start, ?_, ?_⟩
  · exact Option.map_eq_some_iff.mpr ⟨start, begun, rfl⟩
  · have regular : ∀ detector ∈ detectors highEntropy, detector.Regular := fun _ listed => regular_of_mem listed
    have passes := foldl_detect_joinMasked regular joined
    dsimp only at outcome
    split_ifs at outcome
    obtain ⟨_, rfl⟩ := ScreenOutcome.hit.inj outcome
    rw [String.toList_ofList]
    exact passes

/-- A text has no block exactly when one of the two markers is missing. -/
theorem hasPemBlock_false_iff {text : List Char} : hasPemBlock text = false ↔
    (bareWord pemBeginMarker).Absent text ∨ (bareWord pemPrivateKeyMarker).Absent text := by
  rw [hasPemBlock, Bool.and_eq_false_iff, absent_bareWord_iff (by decide), absent_bareWord_iff (by decide)]

/-- The redacted text has no key block. -/
theorem hasPemBlock_joinMasked (kept : unmaskedTexts highEntropy fuel content = some texts) :
    hasPemBlock (joinMasked texts) = false := by
  obtain ⟨start, begun, rfl⟩ := Option.map_eq_some_iff.mp kept
  have spread : ∀ marker : List Char, (∀ text ∈ start, (bareWord marker).Absent text) →
      ∀ text ∈ keptByAll (detectors highEntropy) start, (bareWord marker).Absent text := by
    intro marker absent part listed
    obtain ⟨text, present, within⟩ := keptByAll_parts listed
    exact absent_part (absent text present) within
  rw [hasPemBlock_false_iff, absent_joinMasked_iff (by decide) (by decide) (by decide) (by decide) rfl,
    absent_joinMasked_iff (by decide) (by decide) (by decide) (by decide) rfl]
  split_ifs at begun with pem
  · exact .inl (spread _ (keptPemTexts_absent begun))
  · obtain rfl := Option.some.inj begun
    rcases hasPemBlock_false_iff.mp (eq_false_of_ne_true pem) with begins | closes
    · exact .inl (spread _ (List.forall_mem_singleton.mpr begins))
    · exact .inr (spread _ (List.forall_mem_singleton.mpr closes))

/-- A detector finds nothing in the masked text exactly when it has cut none of its own tokens short. -/
theorem unhit_joinMasked_iff {detector : Detector} (listed : detector ∈ detectors highEntropy)
    (start : List (List Char)) :
    let texts := keptByAll (detectors highEntropy) start
    (redactMarked detector.marker detector.secretLen (joinMasked texts).length (joinMasked texts)).2 = false ↔
      ∀ text ∈ texts.dropLast, detector.endsInSecret text = false := by
  intro texts
  have regular := regular_of_mem listed
  have settled : regular.word.Settled texts := settled_keptByAll regular listed
  rw [unhit_iff_absent regular, @absent_joinMasked_iff regular.word regular.nonempty regular.opens
    regular.closes regular.outside rfl, settled.absent_iff]
  apply forall₂_congr
  intro text _
  rw [← Bool.not_eq_true, endsInSecret_iff]
  constructor
  · rintro uncut ⟨rest, occurs, inside, secret⟩
    exact uncut rest occurs inside secret
  · exact fun uncut rest occurs inside secret => uncut ⟨rest, occurs, inside, secret⟩

/-- The screen takes its own output for clean exactly when it cuts no token short. -/
theorem redacted_clean_iff (hit : screen highEntropy fuel content = some (.hit kinds redacted)) :
    Clean highEntropy redacted ↔ cutShort highEntropy fuel content = false := by
  obtain ⟨texts, kept, joined⟩ := redacted_eq hit
  have noBlock := hasPemBlock_joinMasked kept
  rw [clean_iff 0, screen_clean_iff, joined, and_iff_right noBlock, cutShort, kept, Option.any_some]
  simp only [List.any_eq_false, Bool.not_eq_true]
  obtain ⟨start, _, rfl⟩ := Option.map_eq_some_iff.mp kept
  constructor
  · intro clean text listed detector known
    exact (unhit_joinMasked_iff known start).mp (clean detector known) text listed
  · intro uncut detector known
    exact (unhit_joinMasked_iff known start).mpr fun text listed => uncut text listed detector known

end Redacted

section Funnel

variable {highEntropy : List Char → Bool} {mode : SecretScreenMode} {fuel : Nat} {content : String}

/-- The funnel of a process whose screen returns. -/
def storageMask (highEntropy : List Char → Bool) (mode : SecretScreenMode) (fuel : Nat) (content : String) :
    Option String := (redactForStorage highEntropy mode fuel content).getD none

/-- A clean text has no secret to cut a token short. -/
theorem cutShort_of_clean (clean : Clean highEntropy content) : cutShort highEntropy fuel content = false := by
  obtain ⟨noBlock, nothing⟩ := (screen_clean_iff fuel content).mp ((clean_iff fuel content).mp clean)
  have whole : ∀ remaining : List Detector, (∀ detector ∈ remaining, detector ∈ detectors highEntropy) →
      keptByAll remaining [content.toList] = [content.toList] := by
    intro remaining known
    induction remaining with
    | nil => rfl
    | cons detector remaining ih =>
        obtain ⟨first, rest⟩ := List.forall_mem_cons.mp known
        have regular := regular_of_mem first
        have absent := (unhit_iff_absent regular content.toList).mp (nothing detector first)
        have kept : detector.kept content.toList = [content.toList] := kept_of_absent regular absent
        show keptByAll remaining ([content.toList].flatMap detector.kept) = _
        rw [List.flatMap_singleton, kept, ih rest]
  unfold cutShort unmaskedTexts
  simp [noBlock, whole (detectors highEntropy) fun _ known => known]

/-- Without a key block the screen returns. -/
theorem screen_isSome (noBlock : hasPemBlock content.toList = false) : (screen highEntropy fuel content).isSome := by
  simp [screen, noBlock]

/-- The funnel leaves a text exactly when the screen is off or the text is clean. -/
theorem storageMask_eq_none_iff (returns : (redactForStorage highEntropy mode fuel content).isSome) :
    storageMask highEntropy mode fuel content = none ↔ mode = .off ∨ Clean highEntropy content := by
  unfold storageMask redactForStorage at *
  by_cases off : mode = .off
  · simp [off]
  · rw [if_neg off] at returns ⊢
    rw [or_iff_right off, clean_iff fuel]
    rw [Option.isSome_map] at returns
    obtain ⟨outcome, screened⟩ := Option.isSome_iff_exists.mp returns
    cases outcome <;> simp [screened]

/-- The funnel leaves its own output exactly when it is off or cuts no token short. -/
theorem storageMask_twice_iff (returns : (redactForStorage highEntropy mode fuel content).isSome) :
    storageMask highEntropy mode fuel ((storageMask highEntropy mode fuel content).getD content) = none ↔
      mode = .off ∨ cutShort highEntropy fuel content = false := by
  cases masked : storageMask highEntropy mode fuel content with
  | none =>
      rcases (storageMask_eq_none_iff returns).mp masked with off | clean
      · exact iff_of_true masked (.inl off)
      · exact iff_of_true masked (.inr (cutShort_of_clean clean))
  | some redacted =>
      have on : mode ≠ .off := by
        intro off
        simp [storageMask, redactForStorage, off] at masked
      unfold storageMask redactForStorage at masked
      rw [if_neg on] at masked
      cases screened : screen highEntropy fuel content with
      | none => simp [screened] at masked
      | some outcome =>
          cases outcome with
          | clean => simp [screened] at masked
          | hit kinds text =>
              obtain rfl : text = redacted := by simpa [screened] using masked
              obtain ⟨texts, kept, joined⟩ := redacted_eq screened
              have noBlock : hasPemBlock text.toList = false := joined ▸ hasPemBlock_joinMasked kept
              have again : (redactForStorage highEntropy mode fuel text).isSome := by
                rw [redactForStorage, if_neg on, Option.isSome_map]
                exact screen_isSome noBlock
              rw [Option.getD_some, storageMask_eq_none_iff again, redacted_clean_iff screened]

end Funnel
end AiMemory.SecretScreen
