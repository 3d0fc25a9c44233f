import MiniLang.Proofs.Token.Lossless

/-!
# Maximal munch

The classes of lexemes are tried in the order of a table and the first that fits wins. The outcome
does not depend on that order: which class fits first is also which class has the longest lexeme,
and no other class has one that is as long (`firstMatch?_iff_munch`). What a class contains is said
without any reading (`LexemeClass.Contains`), and so is how a text is cut when the longest lexeme is
taken each time (`Munches`); `deliveries_munched` says that this is how texts are read.
-/

set_option autoImplicit false

namespace MiniLang

namespace LexemeClass

/-- The texts that belong to a class. -/
def Contains : LexemeClass → List Char → Prop
  | name, text => ∃ c parts, text = c :: parts ∧ isNameStart c = true ∧
      ∀ d ∈ parts, isNamePart d = true
  | number, text => text ≠ [] ∧ ∀ d ∈ text, Integer.isDigit d = true
  | blank, text => text ≠ [] ∧ ∀ d ∈ text, Text.isBlank d = true
  | comment opening, text => ∃ body, text = opening ++ body ∧ '\n' ∉ body
  | sign given _, text => text = given

/-- Among the beginnings of `cs` that belong to one of the classes, `lexeme` is a longest one, and
it belongs to `cls`. -/
structure Munch (classes : List LexemeClass) (cs : List Char) (cls : LexemeClass)
    (lexeme : List Char) : Prop where
  mem : cls ∈ classes
  begins : lexeme <+: cs
  contains : cls.Contains lexeme
  longest : ∀ other ∈ classes, ∀ text, text <+: cs → other.Contains text →
    text.length ≤ lexeme.length

/-- A longest lexeme at the beginning of a text and its class, when all of the classes are tried
one after the other. -/
def longestMatch? (cs : List Char) : List LexemeClass → Option (LexemeClass × List Char)
  | [] => none
  | cls :: rest =>
    match cls.take? cs, longestMatch? cs rest with
    | some lexeme, some (other, longer) =>
      if lexeme.length < longer.length then some (other, longer) else some (cls, lexeme)
    | some lexeme, none => some (cls, lexeme)
    | none, best => best

/-! ## The lexemes of one class -/

section Take

variable {cs text lexeme : List Char} {cls : LexemeClass}

theorem prefix_takeWhile {test : Char → Bool} (begins : text <+: cs)
    (all : ∀ c ∈ text, test c = true) : text <+: cs.takeWhile test := by
  obtain ⟨rest, rfl⟩ := begins
  rw [List.takeWhile_append_of_pos all]
  exact List.prefix_append ..

theorem contains_of_take? (found : cls.take? cs = some lexeme) : cls.Contains lexeme := by
  cases cls with
  | name =>
    cases cs with
    | nil => cases found
    | cons c rest =>
      simp only [take?] at found
      split at found
      next start =>
        cases found
        exact ⟨c, _, rfl, start, List.all_eq_true.1 List.all_takeWhile⟩
      · cases found
  | number | blank =>
    have nonempty := (run?_eq_some found).1
    simp only [take?, run?] at found
    split at found
    · cases found
    · cases found
      exact ⟨nonempty, List.all_eq_true.1 List.all_takeWhile⟩
  | comment opening =>
    obtain ⟨rest, -, rfl⟩ := Option.map_eq_some_iff.1 found
    refine ⟨_, rfl, fun mem => ?_⟩
    simpa using List.all_eq_true.1 List.all_takeWhile _ mem
  | sign given kind =>
    obtain ⟨-, -, rfl⟩ := Option.map_eq_some_iff.1 found
    rfl

/-- Where a text begins with a lexeme of a class, the class has one there that begins with it. -/
theorem take?_of_contains (begins : text <+: cs) (contains : cls.Contains text) :
    ∃ lexeme, cls.take? cs = some lexeme ∧ text <+: lexeme := by
  cases cls with
  | name =>
    obtain ⟨c, parts, rfl, start, all⟩ := contains
    obtain ⟨rest, rfl⟩ := begins
    refine ⟨c :: (parts ++ rest).takeWhile isNamePart, ?_, ?_⟩
    · simp only [List.cons_append, take?, start, if_true]
    · exact (List.prefix_cons_inj c).2 (prefix_takeWhile (List.prefix_append ..) all)
  | number | blank =>
    obtain ⟨nonempty, all⟩ := contains
    have longer := prefix_takeWhile begins all
    refine ⟨_, ?_, longer⟩
    simp only [take?, run?]
    split
    next none =>
      rw [none] at longer
      exact absurd (List.prefix_nil.1 longer) nonempty
    next => rfl
  | comment opening =>
    obtain ⟨body, rfl, inLine⟩ := contains
    obtain ⟨rest, rfl⟩ := begins
    rw [List.append_assoc, take?, List.isPrefixOf?_eq_some_iff_append_eq.2 rfl]
    refine ⟨_, rfl, (List.prefix_append_right_inj opening).2 ?_⟩
    refine prefix_takeWhile (List.prefix_append ..) fun c mem => ?_
    simpa using fun same : c = '\n' => inLine (same ▸ mem)
  | sign given kind =>
    obtain rfl : text = given := contains
    obtain ⟨rest, rfl⟩ := begins
    rw [take?, List.isPrefixOf?_eq_some_iff_append_eq.2 rfl]
    exact ⟨text, rfl, List.prefix_rfl⟩

/-- A class has a lexeme where the text begins with something that belongs to it. -/
theorem take?_eq_none_iff :
    cls.take? cs = none ↔ ∀ text, text <+: cs → ¬ cls.Contains text := by
  constructor
  · intro none text begins contains
    obtain ⟨lexeme, found, -⟩ := take?_of_contains begins contains
    rw [none] at found
    cases found
  · intro none
    cases found : cls.take? cs with
    | none => rfl
    | some lexeme => exact absurd (contains_of_take? found) (none lexeme (prefix_of_take? found))

/-- What is read of a class is the longest beginning that belongs to it. -/
theorem munch_of_take? (found : cls.take? cs = some lexeme) : Munch [cls] cs cls lexeme where
  mem := List.mem_singleton_self cls
  begins := prefix_of_take? found
  contains := contains_of_take? found
  longest := fun other mem text begins contains => by
    obtain rfl := List.mem_singleton.1 mem
    obtain ⟨longer, same, short⟩ := take?_of_contains begins contains
    cases found.symm.trans same
    exact short.length_le

end Take

/-! ## The order of the table -/

/-- Whether a lexeme of the class can begin with the character. -/
def startsWith (c : Char) : LexemeClass → Bool
  | name => isNameStart c
  | number => Integer.isDigit c
  | blank => Text.isBlank c
  | comment opening | sign opening _ => opening.head? == some c

/-- The sign with which every lexeme of the class begins. -/
def opening? : LexemeClass → Option (List Char)
  | name | number | blank => none
  | comment opening | sign opening _ => some opening

/-- Whether the lexemes of the first class are longer than those of the second, wherever both have
one. A sign can stand where another fixed beginning does only if one of them begins the other; all
other classes are told apart by their first characters. -/
def outdoes (earlier : LexemeClass) : LexemeClass → Bool
  | name => false
  | number => earlier == name
  | blank => earlier == name || earlier == number
  | comment opening => !opening.head?.any earlier.startsWith
  | sign text _ =>
    match earlier.opening? with
    | some opening => !opening.isPrefixOf text
    | none => !text.head?.any earlier.startsWith

/-- Every class of the table outdoes those that are tried after it. -/
theorem pairwise_outdoes : table.Pairwise fun earlier later => earlier.outdoes later = true := by
  decide

section Outdoes

variable {cs text lexeme : List Char} {cls other : LexemeClass}

/-- The lexemes of a class of the table begin as the class says. -/
theorem startsWith_of_take? (mem : cls ∈ table) (found : cls.take? cs = some lexeme) :
    ∃ c ∈ cs.head?, cls.startsWith c = true := by
  have nonempty := ne_nil_of_take? mem found
  obtain ⟨rest, rfl⟩ := prefix_of_take? found
  have contains := contains_of_take? found
  obtain ⟨c, parts, rfl⟩ := List.exists_cons_of_ne_nil nonempty
  refine ⟨c, rfl, ?_⟩
  cases cls with
  | name =>
    obtain ⟨first, _, same, start, -⟩ := contains
    cases same
    exact start
  | number | blank => exact contains.2 c List.mem_cons_self
  | comment opening =>
    obtain ⟨body, same, -⟩ := contains
    have opens : opening ∈ [['/', '/'], ['$']] := by simpa [table] using mem
    obtain ⟨d, more, rfl⟩ : ∃ d more, opening = d :: more := by
      simp only [List.mem_cons, List.not_mem_nil, or_false] at opens
      rcases opens with rfl | rfl <;> exact ⟨_, _, rfl⟩
    cases same
    exact beq_self_eq_true _
  | sign given kind =>
    obtain rfl : c :: parts = given := contains
    exact beq_self_eq_true _

/-- Classes that begin with different characters have no lexemes at one place. -/
theorem not_both_of_startsWith (mem : cls ∈ table) (mem' : other ∈ table)
    (apart : ∀ c, cls.startsWith c = true → other.startsWith c = false)
    (found : cls.take? cs = some lexeme) : other.take? cs = none := by
  cases also : other.take? cs with
  | none => rfl
  | some text =>
    obtain ⟨c, first, starts⟩ := startsWith_of_take? mem found
    obtain ⟨d, first', starts'⟩ := startsWith_of_take? mem' also
    obtain rfl : c = d := Option.some.inj (first.symm.trans first')
    rw [apart c starts] at starts'
    cases starts'

theorem startsWith_of_head? {opening : List Char}
    (clear : (!opening.head?.any cls.startsWith) = true) (c : Char)
    (starts : cls.startsWith c = true) : (opening.head? == some c) = false := by
  refine Bool.eq_false_iff.2 fun same => ?_
  rw [beq_iff_eq.1 same, Option.any_some, starts] at clear
  cases clear

/-- Names, numbers and blanks begin with different characters. -/
theorem startsWith_of_before {c : Char} (starts : cls.startsWith c = true)
    (before : cls = name ∧ other = number ∨ cls = name ∧ other = blank ∨
      cls = number ∧ other = blank) : other.startsWith c = false := by
  refine Bool.eq_false_iff.2 fun starts' => ?_
  rcases before with ⟨rfl, rfl⟩ | ⟨rfl, rfl⟩ | ⟨rfl, rfl⟩
  · rw [startsWith, isNameStart_of_isDigit starts'] at starts
    cases starts
  · rw [startsWith, (Bool.or_eq_false_iff.1 (isNamePart_of_isBlank starts')).1] at starts
    cases starts
  · rw [startsWith, (Bool.or_eq_false_iff.1 (isNamePart_of_isBlank starts')).2] at starts
    cases starts

theorem opening_prefix {opening : List Char} (opens : cls.opening? = some opening)
    (found : cls.take? cs = some lexeme) : opening <+: lexeme := by
  cases cls with
  | name | number | blank => cases opens
  | comment given =>
    obtain ⟨rest, -, rfl⟩ := Option.map_eq_some_iff.1 found
    cases opens
    exact List.prefix_append ..
  | sign given kind =>
    obtain ⟨rest, -, rfl⟩ := Option.map_eq_some_iff.1 found
    cases opens
    exact List.prefix_rfl

/-- Of two texts that begin a third one, the first is longer unless it begins the second. -/
theorem length_lt_of_not_begins {first second : List Char} (here : first <+: cs)
    (there : second <+: cs) (clear : (!first.isPrefixOf second) = true) :
    second.length < first.length := by
  have clear : ¬ first <+: second := fun begins => by
    rw [List.isPrefixOf_iff_prefix.2 begins] at clear
    cases clear
  rcases List.prefix_or_prefix_of_prefix here there with begins | begins
  · exact absurd begins clear
  · refine lt_of_le_of_ne begins.length_le fun same => clear ?_
    rw [begins.eq_of_length same]

theorem length_lt_of_outdoes (mem : cls ∈ table) (mem' : other ∈ table)
    (outdoes : cls.outdoes other = true) (found : cls.take? cs = some lexeme)
    (found' : other.take? cs = some text) : text.length < lexeme.length := by
  have apart : (∀ c, cls.startsWith c = true → other.startsWith c = false) →
      text.length < lexeme.length := fun apart => by
    rw [not_both_of_startsWith mem mem' apart found] at found'
    cases found'
  cases other with
  | name => cases outdoes
  | number =>
    exact apart fun c starts => startsWith_of_before starts (.inl ⟨beq_iff_eq.1 outdoes, rfl⟩)
  | blank =>
    refine apart fun c starts => startsWith_of_before starts (.inr ?_)
    rcases Bool.or_eq_true_iff.1 outdoes with same | same
    · exact .inl ⟨beq_iff_eq.1 same, rfl⟩
    · exact .inr ⟨beq_iff_eq.1 same, rfl⟩
  | comment opening => exact apart (startsWith_of_head? outdoes)
  | sign given kind =>
    have there := prefix_of_take? found'
    obtain ⟨-, -, rfl⟩ := Option.map_eq_some_iff.1 found'
    cases opens : cls.opening? with
    | none =>
      simp only [LexemeClass.outdoes, opens] at outdoes
      exact apart (startsWith_of_head? outdoes)
    | some opening =>
      simp only [LexemeClass.outdoes, opens] at outdoes
      have begins := opening_prefix opens found
      exact (length_lt_of_not_begins (begins.trans (prefix_of_take? found)) there outdoes).trans_le
        begins.length_le

end Outdoes

/-! ## The first match is the longest one -/

section Munch

variable {cs text lexeme : List Char} {cls : LexemeClass} {classes : List LexemeClass}

/-- What the first class that fits has is longer than what any other one has. -/
theorem length_lt_of_firstMatch? (sub : ∀ x ∈ classes, x ∈ table)
    (order : classes.Pairwise fun earlier later => earlier.outdoes later = true)
    (first : firstMatch? cs classes = some (cls, lexeme)) :
    ∀ other ∈ classes, ∀ text, other.take? cs = some text →
      other = cls ∨ text.length < lexeme.length := by
  induction classes with
  | nil => exact List.forall_mem_nil _
  | cons x rest ih =>
    obtain ⟨here, order⟩ := List.pairwise_cons.1 order
    have known := sub x List.mem_cons_self
    have others : ∀ y ∈ rest, y ∈ table := fun y mem => sub y (List.mem_cons_of_mem x mem)
    unfold firstMatch? at first
    split at first
    next longest found =>
      cases first
      refine List.forall_mem_cons.2 ⟨fun _ _ => .inl rfl, fun other mem text found' => .inr ?_⟩
      exact length_lt_of_outdoes known (others other mem) (here other mem) found found'
    next none =>
      refine List.forall_mem_cons.2 ⟨fun text found' => ?_, ih others order first⟩
      rw [none] at found'
      cases found'

/-- The first class that fits is the one with the longest lexeme, for which no other class makes
up, so that the order in which they are looked at is of no importance. -/
theorem firstMatch?_iff_munch (same : classes.Perm table) :
    firstMatch? cs table = some (cls, lexeme) ↔ Munch classes cs cls lexeme := by
  constructor
  · intro first
    obtain ⟨mem, found⟩ := firstMatch?_eq_some first
    refine ⟨same.mem_iff.2 mem, prefix_of_take? found, contains_of_take? found, ?_⟩
    intro other mem' text begins contains
    obtain ⟨longer, found', short⟩ := take?_of_contains begins contains
    rcases length_lt_of_firstMatch? (fun _ => id) pairwise_outdoes first other
      (same.mem_iff.1 mem') longer found' with rfl | less
    · cases found.symm.trans found'
      exact short.length_le
    · exact short.length_le.trans less.le
  · intro munch
    obtain ⟨longer, found, short⟩ := take?_of_contains munch.begins munch.contains
    have exact : lexeme = longer := short.eq_of_length_le
      (munch.longest cls munch.mem longer (prefix_of_take? found) (contains_of_take? found))
    subst exact
    cases first : firstMatch? cs table with
    | none =>
      rw [take?_eq_none_of_firstMatch? first cls (same.mem_iff.1 munch.mem)] at found
      cases found
    | some other =>
      obtain ⟨mem, found'⟩ := firstMatch?_eq_some first
      have most := munch.longest other.1 (same.mem_iff.2 mem) other.2 (prefix_of_take? found')
        (contains_of_take? found')
      rcases length_lt_of_firstMatch? (fun _ => id) pairwise_outdoes first cls
        (same.mem_iff.1 munch.mem) lexeme found with rfl | less
      · cases found.symm.trans found'
        rfl
      · exact absurd most less.not_ge

/-- No class fits exactly when the text begins with nothing that belongs to a class. -/
theorem firstMatch?_eq_none_iff (same : classes.Perm table) :
    firstMatch? cs table = none ↔
      ∀ cls ∈ classes, ∀ text, text <+: cs → ¬ cls.Contains text := by
  constructor
  · intro none cls mem
    exact take?_eq_none_iff.1 (take?_eq_none_of_firstMatch? none cls (same.mem_iff.1 mem))
  · intro none
    cases first : firstMatch? cs table with
    | none => rfl
    | some found =>
      obtain ⟨mem, found⟩ := firstMatch?_eq_some first
      exact absurd (contains_of_take? found)
        (none _ (same.mem_iff.2 mem) _ (prefix_of_take? found))

theorem take?_eq_none_of_longestMatch? (none : longestMatch? cs classes = none) :
    ∀ cls ∈ classes, cls.take? cs = .none := by
  induction classes with
  | nil => exact List.forall_mem_nil _
  | cons x rest ih =>
    unfold longestMatch? at none
    split at none
    · split at none <;> cases none
    · cases none
    next here => exact List.forall_mem_cons.2 ⟨here, ih none⟩

/-- A longest lexeme stays one when a class is added that has no longer one. -/
theorem Munch.cons {x : LexemeClass} (h : Munch classes cs cls lexeme)
    (le : ∀ text, text <+: cs → x.Contains text → text.length ≤ lexeme.length) :
    Munch (x :: classes) cs cls lexeme :=
  { h with
    mem := List.mem_cons_of_mem x h.mem
    longest := List.forall_mem_cons.2 ⟨le, h.longest⟩ }

/-- The lexeme of a class is a longest one if the other classes have no longer one. -/
theorem munch_cons_of_take? (found : cls.take? cs = some lexeme)
    (le : ∀ other ∈ classes, ∀ text, text <+: cs → other.Contains text →
      text.length ≤ lexeme.length) : Munch (cls :: classes) cs cls lexeme :=
  { munch_of_take? found with
    mem := List.mem_cons_self
    longest := List.forall_mem_cons.2
      ⟨(munch_of_take? found).longest cls (List.mem_singleton_self cls), le⟩ }

/-- When all classes are tried, what is kept is a longest lexeme. -/
theorem munch_of_longestMatch? (best : longestMatch? cs classes = some (cls, lexeme)) :
    Munch classes cs cls lexeme := by
  induction classes generalizing cls lexeme with
  | nil => cases best
  | cons x rest ih =>
    unfold longestMatch? at best
    split at best
    next here other longer found bestOfRest =>
      have munch := ih bestOfRest
      split at best
      next less =>
        cases best
        refine munch.cons fun text begins contains => ?_
        exact ((munch_of_take? found).longest x (List.mem_singleton_self x) text begins
          contains).trans less.le
      next notLess =>
        cases best
        exact munch_cons_of_take? found fun y mem text begins contains =>
          (munch.longest y mem text begins contains).trans (not_lt.1 notLess)
    next found none =>
      cases best
      exact munch_cons_of_take? found fun y mem text begins contains => absurd contains
        (take?_eq_none_iff.1 (take?_eq_none_of_longestMatch? none y mem) text begins)
    next none =>
      exact (ih best).cons fun text begins contains =>
        absurd contains (take?_eq_none_iff.1 none text begins)

/-- Trying all classes, in any order, gives what the first class that fits has. -/
theorem longestMatch?_eq_firstMatch? (same : classes.Perm table) :
    longestMatch? cs classes = firstMatch? cs table := by
  cases best : longestMatch? cs classes with
  | none =>
    refine ((firstMatch?_eq_none_iff same).2 fun cls mem => ?_).symm
    exact take?_eq_none_iff.1 (take?_eq_none_of_longestMatch? best cls mem)
  | some found => exact ((firstMatch?_iff_munch same).2 (munch_of_longestMatch? best)).symm

end Munch

end LexemeClass

open LexemeClass

/-- How `rest`, which stands behind `before`, is cut into tokens when the longest lexeme of the
given classes is taken each time. -/
inductive Munches (classes : List LexemeClass) : List Char → List Char → List Delivery → Prop
  | ending {before : List Char} : Munches classes before [] [{ token := .endAt (.over before []) }]
  | separator {before lexeme rest : List Char} {cls : LexemeClass} {ds : List Delivery}
      (longest : Munch classes (lexeme ++ rest) cls lexeme) (skip : cls.meaning lexeme = none)
      (more : Munches classes (before ++ lexeme) rest ds) :
      Munches classes before (lexeme ++ rest) ds
  | token {before lexeme rest : List Char} {cls : LexemeClass} {kind : TokenKind}
      {problem : Option Problem} {ds : List Delivery}
      (longest : Munch classes (lexeme ++ rest) cls lexeme)
      (means : cls.meaning lexeme = some (kind, problem))
      (more : Munches classes (before ++ lexeme) rest ds) :
      Munches classes before (lexeme ++ rest)
        ({ token := ⟨kind, String.ofList lexeme, .over before lexeme⟩, problem := problem } :: ds)
  | unknown {before rest : List Char} {c : Char} {ds : List Delivery}
      (none : ∀ cls ∈ classes, ∀ text, text <+: c :: rest → ¬ cls.Contains text)
      (more : Munches classes (before ++ [c]) rest ds) :
      Munches classes before (c :: rest)
        ({ token := ⟨.unknown, String.ofList [c], .over before [c]⟩,
           problem := some (.illegalCharacter c) } :: ds)

/-- The token is a single unknown character at the given offset. -/
structure Token.UnknownCharAt (t : Token) (offset : Nat) : Prop where
  kind : t.kind = .unknown
  single : t.text.length = 1
  start : t.span.start = offset

section Segmentation

variable {before rest : List Char} {ds : List Delivery} {classes : List LexemeClass}

theorem Munches.reads (same : classes.Perm table) (h : Munches classes before rest ds) :
    Reads before rest ds := by
  induction h with
  | ending => exact .ending
  | separator longest skip _ ih =>
    refine .separator ?_ ih
    rw [firstPiece?_of_firstMatch? ((firstMatch?_iff_munch same).2 longest), skip]
  | token longest means _ ih =>
    refine .token ?_ ih
    rw [firstPiece?_of_firstMatch? ((firstMatch?_iff_munch same).2 longest), means]
  | @unknown before rest c ds none _ ih =>
    have found : firstPiece? ([c] ++ rest) =
        some ([c], some (.unknown, some (.illegalCharacter c))) := by
      simp only [List.singleton_append, firstPiece?, (firstMatch?_eq_none_iff same).2 none]
    exact Reads.token found ih

theorem Reads.munches (same : classes.Perm table) (h : Reads before rest ds) :
    Munches classes before rest ds := by
  induction h with
  | ending => exact .ending
  | separator found _ ih =>
    rcases firstPiece?_eq_some found with ⟨cls, first, skip⟩ | ⟨c, -, -, -, -, skip⟩
    · exact .separator ((firstMatch?_iff_munch same).1 first) skip.symm ih
    · cases skip
  | token found _ ih =>
    rcases firstPiece?_eq_some found with ⟨cls, first, means⟩ | ⟨c, tail, rfl, whole, none, means⟩
    · exact .token ((firstMatch?_iff_munch same).1 first) means.symm ih
    · cases means
      exact .unknown ((firstMatch?_eq_none_iff same).1 none) ih

/-- A single character that becomes an unknown token is one with which no lexeme begins: a number
of one digit has a value. -/
theorem firstMatch?_eq_none_of_unknown {cs : List Char} {c : Char} {problem : Option Problem}
    (found : firstPiece? cs = some ([c], some (.unknown, problem))) :
    firstMatch? cs table = none := by
  rcases firstPiece?_eq_some found with ⟨cls, first, means⟩ | ⟨-, -, -, -, none, -⟩
  · obtain ⟨mem, fits⟩ := firstMatch?_eq_some first
    cases cls with
    | name =>
      simp only [meaning, Option.some.injEq, Prod.mk.injEq] at means
      cases reserved : keyword? (String.ofList [c]) with
      | none =>
        rw [reserved] at means
        cases means.1
      | some kind =>
        rw [reserved] at means
        exact absurd means.1.symm (keyword?_ne reserved).2
    | number =>
      have digits := (contains_of_take? fits).2
      have digit := isDigit_iff.1 (digits c List.mem_cons_self)
      have value : (Integer.parse? [c]).isSome = true := by
        rw [Integer.parse?_digits (List.cons_ne_nil c []) digits, Integer.checked, if_pos]
        · rfl
        · simp only [Integer.InRange, Integer.ofDigits, List.foldl_cons, List.foldl_nil]
          omega
      rw [meaning, if_pos value] at means
      cases means
    | blank | comment => cases means
    | sign text kind =>
      cases means
      exact absurd rfl (sign_kind mem).2
  · exact none

namespace Lexer

/-- No token stands before the place where it was read. -/
theorem le_start_read : ∀ (fuel : Nat) (c : Cursor), c.offset ≤ (read fuel c).1.token.span.start
  | 0, c => le_rfl
  | fuel + 1, c => by
    rw [read_succ]
    split
    · exact le_rfl
    next text _ => exact (Nat.le_add_right _ _).trans (le_start_read fuel (c.advance text))
    · exact le_rfl

/-- What is read at a place is a single unknown character of that place exactly when no class fits
there. -/
theorem unknownCharAt_read_iff (fuel : Nat) {c : Cursor} (more : c.rest ≠ []) :
    (read (fuel + 1) c).1.token.UnknownCharAt c.offset ↔ firstMatch? c.rest table = none := by
  rw [read_succ]
  constructor
  · intro unknown
    split at unknown
    · exact absurd unknown.kind TokenKind.noConfusion
    next text found =>
      -- what separates takes at least one byte, so that the token stands behind this place
      have positive := Text.byteLength_pos (cut_of_firstPiece? found).1
      have behind := le_start_read fuel (c.advance text)
      have start := unknown.start
      simp only [Cursor.advance] at behind start
      omega
    next text kind problem found =>
      have single : text.length = 1 := by
        have single := unknown.single
        rwa [Cursor.token, String.length_ofList] at single
      obtain ⟨first, rfl⟩ := List.length_eq_one_iff.1 single
      obtain rfl : kind = .unknown := unknown.kind
      exact firstMatch?_eq_none_of_unknown found
  · intro none
    obtain ⟨first, rest, whole⟩ := List.exists_cons_of_ne_nil more
    have piece : firstPiece? c.rest =
        some ([first], some (.unknown, some (.illegalCharacter first))) := by
      rw [whole] at none ⊢
      simp only [firstPiece?, none]
    rw [piece]
    exact ⟨rfl, String.length_ofList, rfl⟩

end Lexer

end Segmentation

/-- What is read does not hang on the order in which the classes are tried. -/
structure MaximalMunch (classes : List LexemeClass) : Prop where
  /-- The first class of the table that fits has a longer lexeme than every other class. -/
  first : ∀ cs cls lexeme, firstMatch? cs table = some (cls, lexeme) →
    ∀ other ∈ classes, ∀ text, other.take? cs = some text →
      other = cls ∨ text.length < lexeme.length
  /-- Its lexeme is the longest beginning that belongs to any class. -/
  longest : ∀ cs cls lexeme, firstMatch? cs table = some (cls, lexeme) ↔
    Munch classes cs cls lexeme
  /-- It is what is found when all classes are tried in the given order. -/
  tried : ∀ cs, longestMatch? cs classes = firstMatch? cs table
  /-- A single unknown character is read where no class fits, and nowhere else. -/
  unknown : ∀ (fuel : Nat) (c : Cursor), c.rest ≠ [] →
    ((Lexer.read (fuel + 1) c).1.token.UnknownCharAt c.offset ↔
      ∀ cls ∈ classes, cls.take? c.rest = none)
  /-- Cutting a text at its longest lexemes gives its tokens, and nothing else does. -/
  tokens : ∀ source ds, Munches classes [] source ds ↔ ds = deliveries source

/-- Texts are read by maximal munch, in whatever order the classes of lexemes are tried. -/
theorem maximalMunch_of_perm (classes : List LexemeClass) (same : classes.Perm table) :
    MaximalMunch classes where
  first := fun cs cls lexeme first other mem =>
    length_lt_of_firstMatch? (fun _ => id) pairwise_outdoes first other (same.mem_iff.1 mem)
  longest := fun _ _ _ => firstMatch?_iff_munch same
  tried := fun _ => longestMatch?_eq_firstMatch? same
  unknown := fun fuel c more => by
    rw [Lexer.unknownCharAt_read_iff fuel more, firstMatch?_eq_none_iff same]
    simp only [take?_eq_none_iff]
  tokens := fun source ds => by
    constructor
    · exact fun munches => (munches.reads same).eq_deliveries
    · rintro rfl
      exact (reads_deliveries source).munches same

/-- The table from its last class to its first. -/
theorem maximalMunch_of_perm_reverse :
    table.reverse.Perm table ∧ MaximalMunch table.reverse ∧
      longestMatch? ['<', '=', '='] table.reverse = some (sign ['<', '='] .lessEquals, ['<', '=']) ∧
      firstMatch? ['<', '=', '='] table.reverse = some (sign ['<'] .less, ['<']) :=
  ⟨List.reverse_perm table, maximalMunch_of_perm table.reverse (List.reverse_perm table),
    by decide, by decide⟩

end MiniLang
