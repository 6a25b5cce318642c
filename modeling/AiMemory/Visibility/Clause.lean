import AiMemory.Library.LikePattern
import AiMemory.Storage.PendingActions
import Mathlib

/-
This file embeds the scopes of a memory, the handlers' test of what a caller may see and the fragment of the queries.
-/

namespace AiMemory.Visibility
open AiMemory.Crdt AiMemory.Library AiMemory.Storage

inductive MemoryScope where
  | «private» | team | unit | org | collective
  deriving DecidableEq, Repr

def MemoryScope.asStr : MemoryScope → String
  | «private» => "private"
  | team => "team"
  | unit => "unit"
  | org => "org"
  | collective => "collective"

def MemoryScope.fromStr (text : String) : Option MemoryScope :=
  [MemoryScope.private, .team, .unit, .org, .collective].find? fun scope => scope.asStr = text

/-- A scope is read back from its own text only. -/
theorem MemoryScope.fromStr_eq_some {text : String} {scope : MemoryScope} :
    MemoryScope.fromStr text = some scope ↔ text = scope.asStr := by
  constructor
  · intro read
    have named := List.find?_some (p := fun scope : MemoryScope => decide (scope.asStr = text)) read
    exact (of_decide_eq_true named).symm
  · rintro rfl
    cases scope <;> decide

section Fields

variable (mem : Memory)

def scopeStr : Option String := (mem.metadata.get "scope").bind Json.asStr

def ownerStr : Option String := (mem.metadata.get "agent_id").bind Json.asStr

def targetStr : Option String := (mem.metadata.get "target_agent_id").bind Json.asStr

end Fields

/-- A path lies in the subtree of an ancestor when it is the ancestor or continues it after a slash. -/
def inSubtree (ancestor path : String) : Bool :=
  path = ancestor || decide ((ancestor ++ "/").toList <+: path.toList)

/-- An absent owner or target reads as the empty text. -/
def privateVisible (mem : Memory) (caller : String) : Bool :=
  (ownerStr mem).getD "" = caller || (targetStr mem).getD "" = caller

def scopeSubtreeVisible (mem : Memory) (caller : String) (ancestorIdx : Nat) : Bool :=
  match (namespaceAncestors caller)[ancestorIdx]? with
  | none => false
  | some ancestor => inSubtree ancestor mem.namespace

/-- A row without a scope is private, and an unknown scope is open to everyone. -/
def isVisibleToCaller (mem : Memory) (caller : String) : Bool :=
  match (scopeStr mem).map MemoryScope.fromStr with
  | none => privateVisible mem caller
  | some none => true
  | some (some .private) => privateVisible mem caller
  | some (some .collective) => true
  | some (some .team) => scopeSubtreeVisible mem caller 1
  | some (some .unit) => scopeSubtreeVisible mem caller 2
  | some (some .org) => scopeSubtreeVisible mem caller 3

/-- The namespace of the agent, of its team, of its unit and of its organisation. -/
structure VisibilityPrefixes where
  own : Option String
  team : Option String
  unit : Option String
  org : Option String
  deriving DecidableEq

def computeVisibilityPrefixes : Option String → VisibilityPrefixes
  | none => ⟨none, none, none, none⟩
  | some agent =>
      let ancestors := namespaceAncestors agent
      ⟨ancestors[0]?, ancestors[1]?, ancestors[2]?, ancestors[3]?⟩

section Rust

def matchesSubtree («namespace» : String) : Option String → Bool
  | none => false
  | some ancestor => inSubtree ancestor «namespace»

/-- A scope that is no text reads as the private scope. -/
def readScope (mem : Memory) : Option MemoryScope :=
  (scopeStr mem).elim (some .private) MemoryScope.fromStr

def isVisible (mem : Memory) (prefixes : VisibilityPrefixes) (caller : Option String) : Bool :=
  if prefixes.own.isNone then true
  else
    match readScope mem with
    | none => false
    | some .collective => true
    | some .private => caller.any fun caller => isVisibleToCaller mem caller
    | some .team => matchesSubtree mem.namespace prefixes.team
    | some .unit => matchesSubtree mem.namespace prefixes.unit
    | some .org => matchesSubtree mem.namespace prefixes.org

end Rust

section Sql

/-- The text that a column keeps of a number, a boolean, an array or an object. -/
abbrev CastText := Json → String

variable (cast : CastText)

/-- A generated column is NULL for an absent or null member, and a text stays as it is. -/
def columnText : Option Json → Option String
  | none => none
  | some .null => none
  | some (.string text) => some text
  | some value => some (cast value)

def scopeIdx (mem : Memory) : String := (columnText cast (mem.metadata.get "scope")).getD "private"

def agentIdIdx (mem : Memory) : Option String := columnText cast (mem.metadata.get "agent_id")

def targetAgentIdIdx (mem : Memory) : Option String := columnText cast (mem.metadata.get "target_agent_id")

/-- A comparison with NULL is not true. -/
def sqlEq : Option String → Option String → Bool
  | some left, some right => left = right
  | _, _ => false

def sqlMarks : LikeMarks Char := ⟨'\\', '_', '%'⟩

/-- LIKE ignores the case of ASCII letters. -/
def like (text : String) (pattern : List Char) : Bool :=
  likeMatch Char.toLower (sqlMarks.read pattern) text.toList

def sqlReplace (mark : Char) (replacement text : List Char) : List Char :=
  text.flatMap fun letter => if letter = mark then replacement else [letter]

def subtreePattern (ancestor : String) : List Char :=
  sqlReplace '_' ['\\', '_'] (sqlReplace '%' ['\\', '%'] ancestor.toList) ++ ['/', '%']

def subtreeClause («namespace» : String) : Option String → Bool
  | none => false
  | some ancestor => «namespace» = ancestor || like «namespace» (subtreePattern ancestor)

/-- No test of the clause is negated, so a NULL test counts as false. -/
def visibilityClause (mem : Memory) (prefixes : VisibilityPrefixes) (caller : Option String) : Bool :=
  prefixes.own.isNone || scopeIdx cast mem = "collective" ||
    (scopeIdx cast mem = "private" && caller.isSome &&
      (sqlEq (agentIdIdx cast mem) caller || sqlEq (targetAgentIdIdx cast mem) caller)) ||
    (scopeIdx cast mem = "team" && subtreeClause mem.namespace prefixes.team) ||
    (scopeIdx cast mem = "unit" && subtreeClause mem.namespace prefixes.unit) ||
    (scopeIdx cast mem = "org" && subtreeClause mem.namespace prefixes.org)

end Sql

section Patterns

/-- The two replacements escape the wildcards and nothing else. -/
theorem sqlReplace_escaped (text : List Char) :
    sqlReplace '_' ['\\', '_'] (sqlReplace '%' ['\\', '%'] text) = sqlMarks.escaped text := by
  induction text with
  | nil => rfl
  | cons letter text ih =>
      rw [LikeMarks.escaped, List.flatMap_cons, ← LikeMarks.escaped, ← ih, sqlReplace, sqlReplace,
        List.flatMap_cons, List.flatMap_append, ← sqlReplace, ← sqlReplace]
      congr 1
      by_cases run : letter = '%'
      · subst run
        decide
      · by_cases one : letter = '_'
        · subst one
          decide
        · simp [sqlReplace, LikeMarks.escapeLetter, sqlMarks, run, one]

/-- The path starts with the ancestor and a slash when the case of ASCII letters is ignored. -/
def CaseVariant (ancestor path : String) : Prop :=
  (ancestor ++ "/").toList.map Char.toLower <+: path.toList.map Char.toLower

instance (ancestor path : String) : Decidable (CaseVariant ancestor path) :=
  inferInstanceAs (Decidable (_ <+: _))

/-- The pattern of an ancestor ignores nothing but the case of the letters that are read in its place. -/
theorem like_subtreePattern_iff {ancestor : String} {letters : List Char}
    (reads : sqlMarks.unescaped ancestor.toList = some letters) (path : String) :
    like path (subtreePattern ancestor) = true ↔ CaseVariant (String.ofList letters) path := by
  have apart : sqlMarks.escape ≠ sqlMarks.run ∧ sqlMarks.escape ≠ sqlMarks.one := by decide
  have ends : '/' ≠ sqlMarks.escape ∧ '/' ≠ sqlMarks.run ∧ '/' ≠ sqlMarks.one := by decide
  have open' : sqlMarks.read ['%'] = [.run] := by decide
  have parts : sqlMarks.read (subtreePattern ancestor) =
      (String.ofList letters ++ "/").toList.map LikePart.exact ++ [.run] := by
    rw [subtreePattern, sqlReplace_escaped, LikeMarks.read_unescaped sqlMarks apart reads ends, open',
      String.toList_append, String.toList_ofList]
    simp
  rw [like, parts, likeMatch_start_iff, CaseVariant]

/-- Only the backslash is a case variant of the backslash. -/
theorem toLower_eq_backslash {letter : Char} (same : letter.toLower = '\\'.toLower) : letter = '\\' := by
  have fixed : '\\'.toLower = '\\' := by decide
  -- Lowering keeps what is a letter, and the backslash is none.
  have noLetter : letter.isAlpha = false := by
    rw [← Char.isAlpha_toLower_eq_isAlpha, same, fixed]
    decide
  have noCapital : letter.isUpper = false := (Bool.or_eq_false_iff.mp noLetter).1
  rw [fixed, Char.toLower_eq_of_not_isUpper (Bool.not_eq_true _ ▸ noCapital)] at same
  exact same

/-- A path below an ancestor with a backslash is no case variant of the letters that are read in its place. -/
theorem not_caseVariant_of_below {ancestor path : String} {letters : List Char}
    (reads : sqlMarks.unescaped ancestor.toList = some letters) (escaping : '\\' ∈ ancestor.toList)
    (below : (ancestor ++ "/").toList <+: path.toList) : ¬ CaseVariant (String.ofList letters) path := by
  obtain ⟨rest, whole⟩ := below
  have ends : '/' ≠ sqlMarks.escape := by decide
  rw [CaseVariant, ← whole, String.toList_append, String.toList_ofList, String.toList_append,
    List.append_assoc]
  exact LikeMarks.not_prefix_unescaped sqlMarks (fun _ => toLower_eq_backslash) ends reads escaping rest

end Patterns

end AiMemory.Visibility
