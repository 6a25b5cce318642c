import AiMemory.Visibility.Clause

/-
This file proves for which rows and callers the three tests of visibility agree.
-/

namespace AiMemory.Visibility
open AiMemory.Crdt AiMemory.Library AiMemory.Storage

/-- The row has no scope or one of the known scopes. -/
def KnownScope (mem : Memory) : Prop :=
  mem.metadata.get "scope" = none ∨
    ∃ scope : MemoryScope, mem.metadata.get "scope" = some (.string scope.asStr)

/-- The caller is the owner of the row or the target of its inbox. -/
def OwnerOrTarget (mem : Memory) (caller : Option String) : Prop :=
  ∃ name, caller = some name ∧ (ownerStr mem = some name ∨ targetStr mem = some name)

variable (cast : CastText) (mem : Memory) (asAgent caller : Option String)

/-- The query and the vector branch admit the same row, the handlers agree on a named agent, and a private row
goes to its owner or its target only. -/
structure OneRule : Prop where
  agree : visibilityClause cast mem (computeVisibilityPrefixes asAgent) caller =
    isVisible mem (computeVisibilityPrefixes asAgent) caller
  handlers : ∀ agent, asAgent = some agent → caller = some agent → agent ≠ "" → KnownScope mem →
    visibilityClause cast mem (computeVisibilityPrefixes asAgent) caller = isVisibleToCaller mem agent ∧
      isVisible mem (computeVisibilityPrefixes asAgent) caller = isVisibleToCaller mem agent
  owned : asAgent.isSome → readScope mem = some .private →
    (visibilityClause cast mem (computeVisibilityPrefixes asAgent) caller = true ∨
      isVisible mem (computeVisibilityPrefixes asAgent) caller = true) → OwnerOrTarget mem caller

section Conditions

/-- A member that is neither absent, null nor a text is kept as the text of its value. -/
def CastMember (key : String) (value : Json) : Prop :=
  mem.metadata.get key = some value ∧ value ≠ .null ∧ value.asStr = none

/-- A cast scope hides the row from the query, so the vector branch must hide it too. -/
def RegularScope : Prop :=
  ∀ value, CastMember mem "scope" value → ∀ name, caller = some name → privateVisible mem name = false

/-- The query takes a member that is no text for the name. -/
def CastIdentity (name : String) : Prop :=
  (∃ value, CastMember mem "agent_id" value ∧ cast value = name) ∨
    ∃ value, CastMember mem "target_agent_id" value ∧ cast value = name

/-- A stranger has a name, or the row has an owner and a target, and the name is no cast member of the row. -/
def RegularIdentity : Prop :=
  readScope mem = some .private → (∀ value, ¬ CastMember mem "scope" value) →
    OwnerOrTarget mem caller ∨ ∀ name, caller = some name →
      (name = "" → (ownerStr mem).isSome ∧ (targetStr mem).isSome) ∧ ¬ CastIdentity cast mem name

/-- A subtree scope reads one of the prefixes. -/
def MemoryScope.prefixOf (prefixes : VisibilityPrefixes) : MemoryScope → Option String
  | .team => prefixes.team
  | .unit => prefixes.unit
  | .org => prefixes.org
  | _ => none

/-- A path other than the ancestor is regular: without a backslash in the ancestor only the case can be misread. A
backslash hides the ancestor's own subtree and opens the subtree of the letters that are read in its place; where it
frees a wildcard the pattern itself is asked. -/
def RegularBelow (ancestor path : String) : Prop :=
  path = ancestor ∨
    match sqlMarks.unescaped ancestor.toList with
    | none => like path (subtreePattern ancestor) = true ↔ (ancestor ++ "/").toList <+: path.toList
    | some letters =>
        if '\\' ∈ ancestor.toList then
          ¬ (ancestor ++ "/").toList <+: path.toList ∧ ¬ CaseVariant (String.ofList letters) path
        else CaseVariant ancestor path → (ancestor ++ "/").toList <+: path.toList

def RegularPrefix : Prop :=
  ∀ scope, readScope mem = some scope → ∀ ancestor,
    scope.prefixOf (computeVisibilityPrefixes asAgent) = some ancestor →
      RegularBelow ancestor mem.namespace

/-- The empty agent name filters nothing; a private row must then be asked for by its owner or target. -/
def Regular : Prop :=
  ∀ agent, asAgent = some agent →
    (agent = "" → readScope mem = some .private → OwnerOrTarget mem caller) ∧
      (agent ≠ "" → RegularScope mem caller ∧ RegularIdentity cast mem caller ∧ RegularPrefix mem asAgent)

end Conditions

/-- No value that is not a text is printed as a scope. -/
def PrintsApart : Prop :=
  ∀ value : Json, value.asStr = none → ∀ scope : MemoryScope, cast value ≠ scope.asStr

section Prefixes

variable {asAgent}

/-- The own prefix of a named agent is its name. -/
theorem own_of_agent {agent : String} (named : agent ≠ "") :
    (computeVisibilityPrefixes (some agent)).own = some agent := by
  have filled : agent.isEmpty = false := by simpa using named
  have rounds : ∃ more, agent.length = more + 1 := by
    apply Nat.exists_eq_succ_of_ne_zero
    simpa using named
  obtain ⟨more, length⟩ := rounds
  simp [computeVisibilityPrefixes, namespaceAncestors, filled, length, namespaceAncestorsLoop]

end Prefixes

section Arms

variable {cast mem caller} {prefixes : VisibilityPrefixes}

/-- A cast scope reads as private here and as no scope in the query. -/
theorem readScope_of_cast {value : Json} (casted : CastMember mem "scope" value) :
    readScope mem = some .private ∧ scopeIdx cast mem = cast value := by
  obtain ⟨member, notNull, noText⟩ := casted
  constructor
  · simp [readScope, scopeStr, member, noText]
  · cases value <;> simp_all [scopeIdx, columnText, Json.asStr]

/-- Without a cast scope both sides read the same scope. -/
theorem readScope_eq (plain : ∀ value, ¬ CastMember mem "scope" value) :
    readScope mem = MemoryScope.fromStr (scopeIdx cast mem) := by
  have byDefault : some MemoryScope.private = MemoryScope.fromStr "private" := by decide
  unfold readScope scopeStr scopeIdx
  cases member : mem.metadata.get "scope" with
  | none => exact byDefault
  | some value =>
      cases value with
      | null => exact byDefault
      | string text => rfl
      | _ => exact absurd ⟨member, by simp, rfl⟩ (plain _)

/-- What the clause asks of a row of one scope. -/
def sqlArm (cast : CastText) (mem : Memory) (prefixes : VisibilityPrefixes) (caller : Option String)
    (scope : MemoryScope) : Bool :=
  match scope with
  | .collective => true
  | .private => caller.isSome &&
      (sqlEq (agentIdIdx cast mem) caller || sqlEq (targetAgentIdIdx cast mem) caller)
  | subtree => subtreeClause mem.namespace (subtree.prefixOf prefixes)

/-- A row of a known scope is asked by its arm of the clause. -/
theorem visibilityClause_known (filtered : prefixes.own.isSome) {scope : MemoryScope}
    (known : scopeIdx cast mem = scope.asStr) :
    visibilityClause cast mem prefixes caller = sqlArm cast mem prefixes caller scope := by
  have asked : prefixes.own.isNone = false := by rw [← Option.not_isSome, filtered]; rfl
  unfold visibilityClause
  rw [asked, known]
  cases scope <;> simp [MemoryScope.asStr, sqlArm, MemoryScope.prefixOf]

/-- A row of an unknown scope passes no arm of the clause. -/
theorem visibilityClause_unknown (filtered : prefixes.own.isSome)
    (unknown : ∀ scope : MemoryScope, scopeIdx cast mem ≠ scope.asStr) :
    visibilityClause cast mem prefixes caller = false := by
  have asked : prefixes.own.isNone = false := by rw [← Option.not_isSome, filtered]; rfl
  have names (scope : MemoryScope) := unknown scope
  have apart := And.intro (names .collective) (And.intro (names .private)
    (And.intro (names .team) (And.intro (names .unit) (names .org))))
  simp only [MemoryScope.asStr] at apart
  simp [visibilityClause, asked, apart]

/-- What the vector branch asks of a row of one scope. -/
def rustArm (mem : Memory) (prefixes : VisibilityPrefixes) (caller : Option String) (scope : MemoryScope) : Bool :=
  match scope with
  | .collective => true
  | .private => caller.any fun name => isVisibleToCaller mem name
  | subtree => matchesSubtree mem.namespace (subtree.prefixOf prefixes)

/-- A row of a known scope is asked by its arm of the vector branch. -/
theorem isVisible_known (filtered : prefixes.own.isSome) {scope : MemoryScope}
    (read : readScope mem = some scope) :
    isVisible mem prefixes caller = rustArm mem prefixes caller scope := by
  have asked : prefixes.own.isNone = false := by rw [← Option.not_isSome, filtered]; rfl
  unfold isVisible
  rw [asked, read]
  cases scope <;> rfl

/-- A row of an unknown scope passes no arm of the vector branch. -/
theorem isVisible_unknown (filtered : prefixes.own.isSome) (unknown : readScope mem = none) :
    isVisible mem prefixes caller = false := by
  have asked : prefixes.own.isNone = false := by rw [← Option.not_isSome, filtered]; rfl
  unfold isVisible
  rw [asked, unknown]
  rfl

/-- The handlers ask for the owner or the target of a row that reads as private. -/
theorem isVisibleToCaller_private (read : readScope mem = some .private) (name : String) :
    isVisibleToCaller mem name = privateVisible mem name := by
  unfold readScope at read
  unfold isVisibleToCaller
  cases text : scopeStr mem with
  | none => rfl
  | some text =>
      rw [text, Option.elim_some] at read
      rw [Option.map_some, read]

/-- A column equals a name when the member is that text or is cast to it. -/
theorem sqlEq_columnText_iff {key name : String} :
    sqlEq (columnText cast (mem.metadata.get key)) (some name) = true ↔
      (mem.metadata.get key).bind Json.asStr = some name ∨
        ∃ value, CastMember mem key value ∧ cast value = name := by
  unfold CastMember
  cases member : mem.metadata.get key with
  | none => simp [columnText, sqlEq]
  | some value => cases value <;> simp [columnText, sqlEq, Json.asStr]

/-- A private row is shown to its owner, to its target, and to the empty name where one of them is missing. -/
theorem privateVisible_iff {name : String} :
    privateVisible mem name = true ↔
      (ownerStr mem = some name ∨ targetStr mem = some name) ∨
        name = "" ∧ (ownerStr mem = none ∨ targetStr mem = none) := by
  unfold privateVisible
  cases ownerStr mem <;> cases targetStr mem <;> simp
  grind

/-- Both tests of a private row admit nobody but its owner and its target exactly for a regular identity. -/
theorem privateArms_iff (read : readScope mem = some .private) :
    (sqlArm cast mem prefixes caller .private = rustArm mem prefixes caller .private ∧
        (sqlArm cast mem prefixes caller .private = true ∨ rustArm mem prefixes caller .private = true →
          OwnerOrTarget mem caller)) ↔
      OwnerOrTarget mem caller ∨ ∀ name, caller = some name →
        (name = "" → (ownerStr mem).isSome ∧ (targetStr mem).isSome) ∧ ¬ CastIdentity cast mem name := by
  cases caller with
  | none => simp [sqlArm, rustArm]
  | some name =>
      have sql : sqlArm cast mem prefixes (some name) .private = true ↔
          (ownerStr mem = some name ∨ targetStr mem = some name) ∨ CastIdentity cast mem name := by
        have admits : sqlArm cast mem prefixes (some name) .private = true ↔
            sqlEq (agentIdIdx cast mem) (some name) = true ∨
              sqlEq (targetAgentIdIdx cast mem) (some name) = true := by simp [sqlArm]
        rw [admits, agentIdIdx, targetAgentIdIdx, sqlEq_columnText_iff, sqlEq_columnText_iff, or_or_or_comm]
        rfl
      have rust : rustArm mem prefixes (some name) .private = true ↔
          (ownerStr mem = some name ∨ targetStr mem = some name) ∨
            name = "" ∧ (ownerStr mem = none ∨ targetStr mem = none) := by
        rw [← privateVisible_iff, ← isVisibleToCaller_private read]
        rfl
      have owner : OwnerOrTarget mem (some name) ↔ ownerStr mem = some name ∨ targetStr mem = some name := by
        simp [OwnerOrTarget]
      rw [Bool.eq_iff_iff, sql, rust, owner]
      by_cases owned : ownerStr mem = some name ∨ targetStr mem = some name
      · simp [owned]
      · -- A stranger must be refused by both tests.
        simp only [owned, false_or, Option.some.injEq, forall_eq']
        constructor
        · rintro ⟨_, refused⟩
          refine ⟨fun blank => ?_, fun casted => refused (.inl casted)⟩
          by_contra missing
          apply refused (.inr ⟨blank, _⟩)
          rw [← Option.not_isSome_iff_eq_none, ← Option.not_isSome_iff_eq_none]
          exact not_and_or.mp missing
        · rintro ⟨filled, noCast⟩
          have noBlank : ¬ (name = "" ∧ (ownerStr mem = none ∨ targetStr mem = none)) := by
            rintro ⟨blank, missing⟩
            obtain ⟨someOwner, someTarget⟩ := filled blank
            rcases missing with missing | missing
            · simp [missing] at someOwner
            · simp [missing] at someTarget
          simp [noCast, noBlank]

/-- The pattern of an ancestor admits its subtree exactly for a regular one. -/
theorem subtreeArm_iff (ancestor path : String) :
    subtreeClause path (some ancestor) = matchesSubtree path (some ancestor) ↔ RegularBelow ancestor path := by
  rw [subtreeClause, matchesSubtree, inSubtree, RegularBelow]
  by_cases own : path = ancestor
  · simp [own]
  · rw [decide_eq_false own, Bool.false_or, Bool.false_or, or_iff_right own, Bool.eq_iff_iff, decide_eq_true_iff]
    cases reads : sqlMarks.unescaped ancestor.toList with
    | none => rfl
    | some letters =>
        rw [like_subtreePattern_iff reads]
        by_cases escaping : '\\' ∈ ancestor.toList
        · have apart (below : (ancestor ++ "/").toList <+: path.toList) :
              ¬ CaseVariant (String.ofList letters) path := not_caseVariant_of_below reads escaping below
          simp only [if_pos escaping]
          tauto
        · have kept : letters = ancestor.toList :=
            Option.some.inj (reads.symm.trans (LikeMarks.unescaped_plain sqlMarks escaping))
          have variant (below : (ancestor ++ "/").toList <+: path.toList) : CaseVariant ancestor path :=
            below.map Char.toLower
          simp only [if_neg escaping]
          rw [kept, String.ofList_toList]
          exact ⟨Iff.mp, fun exact' => ⟨exact', variant⟩⟩

/-- The arms of a subtree scope agree exactly when its ancestor is regular. -/
theorem subtreeArms_iff {scope : MemoryScope} (guarded : scope ≠ .private) (shared : scope ≠ .collective) :
    sqlArm cast mem prefixes caller scope = rustArm mem prefixes caller scope ↔
      ∀ ancestor, scope.prefixOf prefixes = some ancestor → RegularBelow ancestor mem.namespace := by
  have arms : sqlArm cast mem prefixes caller scope = subtreeClause mem.namespace (scope.prefixOf prefixes) ∧
      rustArm mem prefixes caller scope = matchesSubtree mem.namespace (scope.prefixOf prefixes) := by
    cases scope with
    | «private» => exact absurd rfl guarded
    | collective => exact absurd rfl shared
    | _ => exact ⟨rfl, rfl⟩
  rw [arms.1, arms.2]
  cases scope.prefixOf prefixes with
  | none => simp [subtreeClause, matchesSubtree]
  | some ancestor => simp [subtreeArm_iff]

end Arms

section Rule

variable {cast mem asAgent caller}

/-- For the named agent itself the vector branch and the handlers agree. -/
theorem isVisible_eq_handlers {agent : String} (named : agent ≠ "") (known : KnownScope mem) :
    isVisible mem (computeVisibilityPrefixes (some agent)) (some agent) = isVisibleToCaller mem agent := by
  have filtered : (computeVisibilityPrefixes (some agent)).own.isSome := by rw [own_of_agent named]; rfl
  have subtree (index : Nat) :
      matchesSubtree mem.namespace (namespaceAncestors agent)[index]? = scopeSubtreeVisible mem agent index := by
    unfold matchesSubtree scopeSubtreeVisible
    cases (namespaceAncestors agent)[index]? <;> rfl
  rcases known with absent | ⟨scope, member⟩
  · have read : readScope mem = some .private := by simp [readScope, scopeStr, absent]
    rw [isVisible_known filtered read]
    rfl
  · have text : scopeStr mem = some scope.asStr := by simp [scopeStr, member, Json.asStr]
    have same : MemoryScope.fromStr scope.asStr = some scope := MemoryScope.fromStr_eq_some.mpr rfl
    have read : readScope mem = some scope := by rw [readScope, text, Option.elim_some, same]
    rw [isVisible_known filtered read]
    cases scope with
    | «private» => rfl
    | collective => simp [rustArm, isVisibleToCaller, text, same]
    | team =>
        have handled : isVisibleToCaller mem agent = scopeSubtreeVisible mem agent 1 := by
          simp [isVisibleToCaller, text, same]
        rw [handled]
        exact subtree 1
    | unit =>
        have handled : isVisibleToCaller mem agent = scopeSubtreeVisible mem agent 2 := by
          simp [isVisibleToCaller, text, same]
        rw [handled]
        exact subtree 2
    | org =>
        have handled : isVisibleToCaller mem agent = scopeSubtreeVisible mem agent 3 := by
          simp [isVisibleToCaller, text, same]
        rw [handled]
        exact subtree 3

/-- With a named agent the rule is the agreement and the ownership of a private row. -/
theorem oneRule_of_named {agent : String} (named : agent ≠ "") :
    OneRule cast mem (some agent) caller ↔
      visibilityClause cast mem (computeVisibilityPrefixes (some agent)) caller =
          isVisible mem (computeVisibilityPrefixes (some agent)) caller ∧
        (readScope mem = some .private →
          (visibilityClause cast mem (computeVisibilityPrefixes (some agent)) caller = true ∨
            isVisible mem (computeVisibilityPrefixes (some agent)) caller = true) → OwnerOrTarget mem caller) := by
  constructor
  · exact fun rule => ⟨rule.agree, rule.owned rfl⟩
  · rintro ⟨agree, owned⟩
    refine ⟨agree, ?_, fun _ => owned⟩
    intro other same self _ known
    obtain rfl := Option.some.inj same
    subst self
    rw [agree]
    exact ⟨isVisible_eq_handlers named known, isVisible_eq_handlers named known⟩

/-- A row with a cast scope is hidden from the query. -/
theorem oneRule_of_cast (prints : PrintsApart cast) {agent : String} (named : agent ≠ "") {value : Json}
    (casted : CastMember mem "scope" value) :
    OneRule cast mem (some agent) caller ↔
      ∀ name, caller = some name → privateVisible mem name = false := by
  have filtered : (computeVisibilityPrefixes (some agent)).own.isSome := by rw [own_of_agent named]; rfl
  obtain ⟨read, printed⟩ := @readScope_of_cast cast mem value casted
  have hidden : visibilityClause cast mem (computeVisibilityPrefixes (some agent)) caller = false := by
    apply visibilityClause_unknown filtered
    intro scope
    rw [printed]
    exact prints value casted.2.2 scope
  rw [oneRule_of_named named, hidden, isVisible_known filtered read, rustArm]
  cases caller with
  | none => simp
  | some name =>
      rw [Option.any_some, isVisibleToCaller_private read]
      constructor
      · rintro ⟨refused, _⟩ other same
        rw [← Option.some.inj same, ← refused]
      · intro refused
        rw [refused name rfl]
        simp

/-- Nothing is asked of a request without an agent. -/
theorem oneRule_of_unasked : OneRule cast mem none caller := by
  refine ⟨rfl, ?_, ?_⟩
  · intro agent same
    cases same
  · intro asked
    cases asked

/-- Without prefixes every row passes both tests. -/
theorem oneRule_of_blank :
    OneRule cast mem (some "") caller ↔ (readScope mem = some .private → OwnerOrTarget mem caller) := by
  constructor
  · intro rule read
    exact rule.owned rfl read (.inl rfl)
  · intro owned
    refine ⟨rfl, ?_, fun _ read _ => owned read⟩
    intro agent same _ named
    exact absurd (Option.some.inj same).symm named

/-- A row of an unknown scope is hidden by both tests. -/
theorem oneRule_of_unknown {agent : String} (named : agent ≠ "") (plain : ∀ value, ¬ CastMember mem "scope" value)
    (unread : readScope mem = none) : OneRule cast mem (some agent) caller := by
  have filtered : (computeVisibilityPrefixes (some agent)).own.isSome := by rw [own_of_agent named]; rfl
  have unknown : ∀ scope : MemoryScope, scopeIdx cast mem ≠ scope.asStr := by
    intro scope same
    rw [readScope_eq plain, MemoryScope.fromStr_eq_some.mpr same] at unread
    cases unread
  rw [oneRule_of_named named, visibilityClause_unknown filtered unknown, isVisible_unknown filtered unread]
  refine ⟨rfl, ?_⟩
  rw [unread]
  intro read
  cases read

/-- A row of one scope meets the rule as the two tests of that scope do. -/
theorem oneRule_of_scope {agent : String} (named : agent ≠ "") (plain : ∀ value, ¬ CastMember mem "scope" value)
    {scope : MemoryScope} (read : readScope mem = some scope) :
    OneRule cast mem (some agent) caller ↔
      sqlArm cast mem (computeVisibilityPrefixes (some agent)) caller scope =
          rustArm mem (computeVisibilityPrefixes (some agent)) caller scope ∧
        (scope = .private →
          (sqlArm cast mem (computeVisibilityPrefixes (some agent)) caller scope = true ∨
            rustArm mem (computeVisibilityPrefixes (some agent)) caller scope = true) →
          OwnerOrTarget mem caller) := by
  have filtered : (computeVisibilityPrefixes (some agent)).own.isSome := by rw [own_of_agent named]; rfl
  have known : scopeIdx cast mem = scope.asStr := by
    rw [readScope_eq plain] at read
    exact MemoryScope.fromStr_eq_some.mp read
  rw [oneRule_of_named named, visibilityClause_known filtered known, isVisible_known filtered read, read,
    Option.some.injEq]

/-- A row of one scope needs its own prefix to be regular. -/
theorem regularPrefix_of_scope {scope : MemoryScope} (read : readScope mem = some scope) :
    RegularPrefix mem asAgent ↔
      ∀ ancestor, scope.prefixOf (computeVisibilityPrefixes asAgent) = some ancestor →
        RegularBelow ancestor mem.namespace := by
  unfold RegularPrefix
  rw [read]
  simp only [Option.some.injEq, forall_eq']

/-- A scope without a subtree needs no prefix. -/
theorem regularPrefix_of_apart {scope : MemoryScope} (read : readScope mem = some scope)
    (apart : ∀ prefixes, scope.prefixOf prefixes = none) : RegularPrefix mem asAgent := by
  rw [regularPrefix_of_scope read]
  intro ancestor found
  rw [apart] at found
  cases found

/-- For a row with no cast scope the identities decide a private row and the prefixes a subtree. -/
theorem oneRule_of_plain {agent : String} (named : agent ≠ "") (plain : ∀ value, ¬ CastMember mem "scope" value) :
    OneRule cast mem (some agent) caller ↔
      RegularIdentity cast mem caller ∧ RegularPrefix mem (some agent) := by
  cases read : readScope mem with
  | none =>
      refine iff_of_true (oneRule_of_unknown named plain read) ⟨?_, ?_⟩
      · intro other
        rw [read] at other
        cases other
      · intro scope other
        rw [read] at other
        cases other
  | some scope =>
      rw [oneRule_of_scope named plain read]
      by_cases guarded : scope = .private
      · subst guarded
        have noPrefix : RegularPrefix mem (some agent) := regularPrefix_of_apart read fun _ => rfl
        rw [forall_prop_of_true rfl, privateArms_iff read]
        exact ⟨fun identity => ⟨fun _ _ => identity, noPrefix⟩, fun regular => regular.1 read plain⟩
      · have noIdentity : RegularIdentity cast mem caller := fun other =>
          absurd (Option.some.inj (read.symm.trans other)) guarded
        rw [forall_prop_of_false guarded, and_true, and_iff_right noIdentity]
        by_cases shared : scope = .collective
        · subst shared
          exact iff_of_true rfl (regularPrefix_of_apart read fun _ => rfl)
        · rw [regularPrefix_of_scope read, subtreeArms_iff guarded shared]

/-- The three tests follow one rule exactly for a regular row, agent and caller. -/
theorem oneRule_iff (prints : PrintsApart cast) :
    OneRule cast mem asAgent caller ↔ Regular cast mem asAgent caller := by
  unfold Regular
  cases asAgent with
  | none =>
      refine iff_of_true oneRule_of_unasked ?_
      intro agent same
      cases same
  | some agent =>
      simp only [Option.some.injEq, forall_eq']
      by_cases named : agent = ""
      · subst named
        rw [oneRule_of_blank]
        simp
      · rw [forall_prop_of_false named, true_and, forall_prop_of_true named]
        by_cases casted : ∃ value, CastMember mem "scope" value
        · obtain ⟨value, casted⟩ := casted
          have noIdentity : RegularIdentity cast mem caller := fun _ plain => absurd casted (plain value)
          have read := (@readScope_of_cast cast mem value casted).1
          have noPrefix : RegularPrefix mem (some agent) := regularPrefix_of_apart read fun _ => rfl
          rw [oneRule_of_cast prints named casted]
          exact ⟨fun refused => ⟨fun _ _ => refused, noIdentity, noPrefix⟩, fun regular => regular.1 value casted⟩
        · rw [not_exists] at casted
          have plainScope : RegularScope mem caller := fun value member => absurd member (casted value)
          rw [oneRule_of_plain named casted, and_iff_right plainScope]

end Rule

section Samples

def sampleCast : CastText
  | .bool true => "1"
  | .bool false => "0"
  | .array _ _ => "[]"
  | .object _ _ => "{}"
  | _ => "0"

theorem sampleCast_apart : PrintsApart sampleCast := by
  intro value _ scope
  have listed : sampleCast value ∈ ["1", "0", "[]", "{}"] := by
    cases value with
    | bool value => cases value <;> simp [sampleCast]
    | _ => simp [sampleCast]
  have apart : ∀ text ∈ ["1", "0", "[]", "{}"], text ≠ scope.asStr := by cases scope <;> decide
  exact apart _ listed

def aliceRow : Memory :=
  { Memory.base "same-id" "2026-06-16T10:00:00+00:00" with
    metadata := Json.empty.insert "agent_id" (.string "alice") }

/-- The owner of a private row meets one rule. -/
theorem aliceRow_ruled : OneRule sampleCast aliceRow (some "acme/alice") (some "alice") := by
  refine (oneRule_iff sampleCast_apart).mpr ?_
  intro agent same
  obtain rfl := Option.some.inj same
  have owned : OwnerOrTarget aliceRow (some "alice") := ⟨"alice", rfl, .inl (by decide)⟩
  have noScope : aliceRow.metadata.get "scope" = none := by decide
  have noCast (value : Json) : ¬ CastMember aliceRow "scope" value := by
    rintro ⟨member, _⟩
    rw [noScope] at member
    cases member
  refine ⟨fun _ _ => owned, fun _ => ⟨fun value member => absurd member (noCast value), fun _ _ => .inl owned, ?_⟩⟩
  have read : readScope aliceRow = some .private := by decide
  intro scope other ancestor found
  rw [read] at other
  cases other
  cases found

def teamRow : Memory :=
  { aliceRow with
    «namespace» := "acme/secret"
    metadata := aliceRow.metadata.insert "scope" (.string "team") }

/-- The query shows a row of the team acme to an agent of the team Acme. A caller without a name sees the
private row of alice, and so does everyone with an agent without a name. -/
theorem teamRow_leaks :
    ¬ OneRule sampleCast teamRow (some "Acme/dev") (some "Acme/dev") ∧
      ¬ OneRule sampleCast aliceRow (some "acme/bob") (some "") ∧
      ¬ OneRule sampleCast aliceRow (some "") (some "bob") := by
  have stranger : ¬ OwnerOrTarget aliceRow (some "bob") := by
    rintro ⟨name, same, owned⟩
    cases same
    revert owned
    decide
  refine ⟨fun rule => ?_, fun rule => ?_, fun rule => stranger (rule.owned rfl (by decide) (.inl rfl))⟩
  · exact absurd rule.agree (by decide +kernel)
  · exact absurd rule.agree (by decide +kernel)

end Samples
end AiMemory.Visibility
