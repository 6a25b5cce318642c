import Mathlib.Data.List.Infix

/-
This file develops the marked words of a text and what becomes of them when parts of the text are replaced.
-/

namespace AiMemory.Library

universe u
variable {Letter : Type u}

section Occurrences

variable {word rest first second text inner : List Letter} {separator opening closing : Letter}

theorem suffix_append_right (ends : first <:+ text) (rest : List Letter) : first ++ rest <:+ text ++ rest := by
  obtain ⟨before, rfl⟩ := ends
  exact ⟨before, (List.append_assoc _ _ _).symm⟩

/-- A text ends in a word after an append when its second part does, or when the word reaches into the first. -/
theorem suffix_append_iff :
    word <:+ first ++ second ↔ word <:+ second ∨ ∃ head, word = head ++ second ∧ head <:+ first := by
  constructor
  · rintro ⟨before, same⟩
    rcases List.append_eq_append_iff.mp same with ⟨head, split, ends⟩ | ⟨gap, _, ends⟩
    · exact .inr ⟨head, ends, before, split.symm⟩
    · exact .inl ⟨gap, ends.symm⟩
  · rintro (later | ⟨head, rfl, reaches⟩)
    · exact later.trans (List.suffix_append _ _)
    · exact suffix_append_right reaches second

/-- A word without the separator starts before it or after it. -/
theorem occurs_append_cons_iff (apart : separator ∉ word) :
    word ++ rest <:+ first ++ separator :: second ↔
      (∃ left, rest = left ++ separator :: second ∧ word ++ left <:+ first) ∨ word ++ rest <:+ second := by
  rw [suffix_append_iff, List.suffix_cons_iff]
  constructor
  · rintro ((here | later) | ⟨head, same, reaches⟩)
    · cases word with
      | nil => exact .inl ⟨[], here, List.nil_suffix⟩
      | cons letter word =>
          obtain ⟨rfl, _⟩ := List.cons.inj here
          exact absurd List.mem_cons_self apart
    · exact .inr later
    · rcases List.append_eq_append_iff.mp same with ⟨left, rfl, ends⟩ | ⟨gap, split, ends⟩
      · exact .inl ⟨left, ends, reaches⟩
      · cases gap with
        | nil =>
            rw [List.append_nil] at split
            exact .inl ⟨[], ends.symm, by rwa [List.append_nil, split]⟩
        | cons letter gap =>
            obtain ⟨rfl, _⟩ := List.cons.inj ends
            exact absurd (split ▸ List.mem_append_right _ List.mem_cons_self) apart
  · rintro (⟨left, rfl, reaches⟩ | later)
    · exact .inr ⟨word ++ left, by rw [List.append_assoc], reaches⟩
    · exact .inl (.inr later)

/-- A word without the brackets, and outside of them, starts before them or after them. -/
theorem occurs_bracketed_iff (opens : opening ∉ word) (closes : closing ∉ word) (outside : ¬ word <:+: inner) :
    word ++ rest <:+ first ++ (opening :: (inner ++ closing :: second)) ↔
      (∃ left, rest = left ++ opening :: (inner ++ closing :: second) ∧ word ++ left <:+ first) ∨
        word ++ rest <:+ second := by
  rw [occurs_append_cons_iff opens, occurs_append_cons_iff closes]
  apply or_congr_right
  apply or_iff_right
  rintro ⟨left, _, before, same⟩
  exact outside ⟨before, left, by rw [List.append_assoc, same]⟩

/-- A word without the separator starts a text when it starts what is before the separator. -/
theorem prefix_append_cons_iff (apart : separator ∉ word) :
    word <+: first ++ separator :: second ↔ word <+: first := by
  constructor
  · rintro ⟨rest, same⟩
    rcases List.append_eq_append_iff.mp same with ⟨left, split, _⟩ | ⟨gap, split, ends⟩
    · exact ⟨left, split.symm⟩
    · cases gap with
      | nil => exact ⟨[], by rw [List.append_nil, split, List.append_nil]⟩
      | cons letter gap =>
          obtain ⟨rfl, _⟩ := List.cons.inj ends
          exact absurd (split ▸ List.mem_append_right _ List.mem_cons_self) apart
  · exact fun starts => starts.trans (List.prefix_append _ _)

/-- A word that starts inside of itself has a border, and the text after the first one starts with its rest. -/
theorem border_of_overlap {head : List Letter} (same : word ++ first = head ++ (word ++ rest))
    (short : head.length ≤ word.length) :
    word.drop head.length <+: word ∧ first = word.drop (word.length - head.length) ++ rest := by
  obtain ⟨tail, rfl⟩ : head <+: word :=
    List.prefix_of_prefix_length_le ⟨word ++ rest, same.symm⟩ (List.prefix_append _ _) short
  rw [List.append_assoc, List.append_cancel_left_eq] at same
  have starts : tail <+: head ++ tail := by
    refine List.prefix_of_prefix_length_le ⟨first, same⟩ (List.prefix_append _ _) ?_
    rw [List.length_append]
    omega
  rw [List.drop_left]
  refine ⟨starts, ?_⟩
  obtain ⟨border, split⟩ := starts
  have width : (head ++ tail).length - head.length = tail.length := by
    rw [List.length_append]
    omega
  rw [← split, List.append_assoc, List.append_cancel_left_eq] at same
  rw [width, ← split, List.drop_left]
  exact same

end Occurrences

/-- A marked word is a marker with letters after it; whether it is accepted is decided by the letters up to the
first one that no word has. -/
structure MarkedWord (Letter : Type u) where
  marker : List Letter
  inside : Letter → Bool
  accepts : List Letter → Prop
  stops : ∀ first letter rest, inside letter = false → (accepts (first ++ letter :: rest) ↔ accepts first)

namespace MarkedWord

variable (marked : MarkedWord Letter)

/-- No marked word is accepted anywhere in the text. -/
def Absent (text : List Letter) : Prop := ∀ rest, marked.marker ++ rest <:+ text → ¬ marked.accepts rest

/-- A marked word that is accepted reaches the end of the text. -/
def AtEnd (text : List Letter) : Prop :=
  ∀ rest, marked.marker ++ rest <:+ text → marked.accepts rest → ∀ letter ∈ rest, marked.inside letter = true

variable {marked} {text part rest more : List Letter}

/-- What comes after a text with a letter that no word has does not matter. -/
theorem accepts_append_of_notMem (stopped : ∃ letter ∈ rest, marked.inside letter = false) :
    marked.accepts (rest ++ more) ↔ marked.accepts rest := by
  obtain ⟨letter, present, outside⟩ := stopped
  obtain ⟨first, last, rfl⟩ := List.append_of_mem present
  rw [List.append_assoc, List.cons_append, marked.stops first letter _ outside,
    marked.stops first letter _ outside]

/-- A word that is accepted only without what comes after it has no other letter. -/
theorem inside_of_cut (accepted : marked.accepts rest) (refused : ¬ marked.accepts (rest ++ more)) :
    ∀ letter ∈ rest, marked.inside letter = true := by
  by_contra stopped
  push Not at stopped
  obtain ⟨letter, present, outside⟩ := stopped
  exact refused ((accepts_append_of_notMem ⟨letter, present, eq_false_of_ne_true outside⟩).mpr accepted)

/-- A text without the mark does not end in it. -/
theorem Absent.atEnd (absent : marked.Absent text) : marked.AtEnd text :=
  fun rest occurs accepted => absurd accepted (absent rest occurs)

/-- A part of a text without the mark has none. -/
theorem Absent.suffix (absent : marked.Absent text) (ends : part <:+ text) : marked.Absent part :=
  fun rest occurs => absent rest (occurs.trans ends)

/-- A part of a text whose accepted words reach its end is such a text. -/
theorem AtEnd.of_part (atEnd : marked.AtEnd text) (within : part <:+: text) : marked.AtEnd part := by
  intro rest occurs accepted
  obtain ⟨before, after, rfl⟩ := within
  by_cases refused : marked.accepts (rest ++ after)
  · have reaches : marked.marker ++ (rest ++ after) <:+ before ++ part ++ after := by
      rw [← List.append_assoc, List.append_assoc before]
      exact List.suffix_append_of_suffix (suffix_append_right occurs after)
    intro letter present
    exact atEnd _ reaches refused letter (List.mem_append_left _ present)
  · exact inside_of_cut accepted refused

/-- A text with a bracket in it has an accepted word when one of its two sides has one. -/
theorem absent_bracketed_iff {first second inner : List Letter} {opening closing : Letter}
    (opens : opening ∉ marked.marker) (closes : closing ∉ marked.marker) (outside : ¬ marked.marker <:+: inner)
    (stop : marked.inside opening = false) :
    marked.Absent (first ++ (opening :: (inner ++ closing :: second))) ↔
      marked.Absent first ∧ marked.Absent second := by
  unfold Absent
  simp only [occurs_bracketed_iff opens closes outside, or_imp, forall_and]
  apply and_congr_left
  intro _
  constructor
  · intro absent left occurs accepted
    exact absent _ ⟨left, rfl, occurs⟩ ((marked.stops left opening _ stop).mpr accepted)
  · rintro absent rest ⟨left, rfl, occurs⟩ accepted
    exact absent left occurs ((marked.stops left opening _ stop).mp accepted)

section Settled

/-- The accepted words of the texts are at their ends, and the last text has none. -/
structure Settled (marked : MarkedWord Letter) (texts : List (List Letter)) : Prop where
  atEnd : ∀ text ∈ texts, marked.AtEnd text
  last : ∀ text ∈ texts.getLast?, marked.Absent text

/-- A single text without the mark is settled. -/
theorem Settled.singleton (absent : marked.Absent text) : marked.Settled [text] where
  atEnd := by simpa using absent.atEnd
  last := by simpa using absent

/-- A text before settled ones must not end in the mark. -/
theorem Settled.cons {texts : List (List Letter)} (more : texts ≠ []) (atEnd : marked.AtEnd text)
    (settled : marked.Settled texts) : marked.Settled (text :: texts) where
  atEnd := List.forall_mem_cons.mpr ⟨atEnd, settled.atEnd⟩
  last := by
    rw [List.getLast?_cons_of_ne_nil more]
    exact settled.last

theorem getLast?_flatMap {texts : List (List Letter)} {parts : List Letter → List (List Letter)}
    (some : ∀ text, parts text ≠ []) :
    (texts.flatMap parts).getLast? = texts.getLast?.bind fun text => (parts text).getLast? := by
  rcases List.eq_nil_or_concat' texts with rfl | ⟨before, last, rfl⟩
  · rfl
  · rw [List.flatMap_append, List.flatMap_singleton, List.getLast?_append_of_ne_nil _ (some last)]
    simp

/-- Settled parts make settled texts. -/
theorem Settled.of_parts {texts : List (List Letter)} {parts : List Letter → List (List Letter)}
    (some : ∀ text, parts text ≠ []) (settled : ∀ text ∈ texts, marked.Settled (parts text)) :
    marked.Settled (texts.flatMap parts) where
  atEnd part listed := by
    obtain ⟨text, present, taken⟩ := List.mem_flatMap.mp listed
    exact (settled text present).atEnd part taken
  last part listed := by
    rw [getLast?_flatMap some] at listed
    obtain ⟨text, present, taken⟩ := Option.bind_eq_some_iff.mp listed
    exact (settled text (List.mem_of_getLast? present)).last part taken

/-- Texts that are taken apart stay settled when the last part of a text is its end. -/
theorem Settled.flatMap {texts : List (List Letter)} {parts : List Letter → List (List Letter)}
    (settled : marked.Settled texts) (some : ∀ text, parts text ≠ [])
    (within : ∀ text, ∀ part ∈ parts text, part <:+: text)
    (ends : ∀ text, ∀ part ∈ (parts text).getLast?, part <:+ text) : marked.Settled (texts.flatMap parts) where
  atEnd part listed := by
    obtain ⟨text, present, taken⟩ := List.mem_flatMap.mp listed
    exact (settled.atEnd text present).of_part (within text part taken)
  last part listed := by
    rw [getLast?_flatMap some] at listed
    obtain ⟨text, present, taken⟩ := Option.bind_eq_some_iff.mp listed
    exact (settled.last text present).suffix (ends text part taken)

/-- Settled texts are free of accepted words when no text but the last one ends in one. -/
theorem Settled.absent_iff {texts : List (List Letter)} (settled : marked.Settled texts) :
    (∀ text ∈ texts, marked.Absent text) ↔ ∀ text ∈ texts.dropLast, ∀ rest, marked.marker ++ rest <:+ text →
      (∀ letter ∈ rest, marked.inside letter = true) → ¬ marked.accepts rest := by
  constructor
  · intro absent text listed rest occurs _
    exact absent text (List.mem_of_mem_dropLast listed) rest occurs
  · intro uncut text listed rest occurs accepted
    rcases List.eq_nil_or_concat' texts with rfl | ⟨before, last, rfl⟩
    · cases listed
    · rcases List.mem_append.mp listed with earlier | isLast
      · have reaches := settled.atEnd text listed rest occurs accepted
        exact uncut text (by simpa using earlier) rest occurs reaches accepted
      · rw [List.mem_singleton.mp isLast] at occurs
        exact settled.last last (by simp) rest occurs accepted

end Settled
end MarkedWord
end AiMemory.Library
