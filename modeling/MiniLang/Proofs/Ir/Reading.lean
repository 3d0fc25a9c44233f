import MiniLang.Ir.Text

/-!
# Reading the text of intermediate code

The text of a program can be read back. The lines of a text and the words of a line are its longest
stretches without certain characters, and each instruction is determined by the words of its line
(`Instr.ofWords_words`): the first words tell the instructions apart, and labels end in a colon.
Headers start with a word of their own, so that the lines fall apart into functions. This needs
names that are words themselves, and numbers of temporaries that can be counted in the code, as they
are not written (`Program.Readable`). Then reading gives back the program (`Program.ofText_text`),
and different programs have different texts (`Program.Readable.eq_of_text_eq`).
-/

set_option autoImplicit false

namespace MiniLang.Ir

/-! ## Stretches of a text -/

/-- The longest stretches of a text that have none of the given characters in them. -/
def stretches (gap : Char → Bool) (text : List Char) : List String :=
  ((text.splitOnP gap).filter (· ≠ [])).map String.ofList

/-- A text without certain characters. -/
def Free (gap : Char → Bool) (text : String) : Prop := ∀ c ∈ text.toList, gap c = false

/-- A text that is a single stretch. -/
structure Solid (gap : Char → Bool) (text : String) : Prop where
  nonempty : text ≠ ""
  free : Free gap text

section

variable {gap : Char → Bool} {w w' : String} {c : Char} {before after text : List Char}

instance : Decidable (Free gap w) :=
  decidable_of_iff ((w.toList.all fun c => !gap c) = true) (by simp [Free])

instance : Decidable (Solid gap w) :=
  decidable_of_iff (w ≠ "" ∧ Free gap w)
    ⟨fun h => ⟨h.1, h.2⟩, fun h => ⟨h.nonempty, h.free⟩⟩

@[simp] theorem free_append : Free gap (w ++ w') ↔ Free gap w ∧ Free gap w' := by
  simp [Free, or_imp, forall_and]

/-- Texts with a separator between them. -/
theorem free_joinWith {texts : List String} (hw : Free gap w) (h : ∀ text ∈ texts, Free gap text) :
    Free gap (Text.joinWith w texts) := by
  induction texts with
  | nil => simp [Text.joinWith, Free]
  | cons first others ih =>
    obtain ⟨start, h⟩ := List.forall_mem_cons.1 h
    cases others with
    | nil => exact start
    | cons second others => simpa [Text.joinWith_cons_cons, start, hw] using ih h

@[simp] theorem stretches_nil : stretches gap [] = [] := by
  simp [stretches]

theorem stretches_append_cons (is : gap c = true) :
    stretches gap (before ++ c :: after) = stretches gap before ++ stretches gap after := by
  simp [stretches, List.splitOnP_append_cons before after is]

theorem stretches_cons (is : gap c = true) : stretches gap (c :: after) = stretches gap after := by
  rw [← List.nil_append (c :: after), stretches_append_cons is, stretches_nil, List.nil_append]

namespace Solid

theorem stretches (h : Solid gap w) : stretches gap w.toList = [w] := by
  simp [Ir.stretches, List.splitOnP_eq_singleton h.free, h.nonempty]

/-- A solid text before a gap is the first stretch. -/
theorem stretches_append_cons (h : Solid gap w) (is : gap c = true) :
    Ir.stretches gap (w.toList ++ c :: text) = w :: Ir.stretches gap text := by
  rw [Ir.stretches_append_cons is, h.stretches, List.singleton_append]

/-- A solid text that goes on without a gap is solid. -/
theorem append (h : Solid gap w) (free : Free gap w') : Solid gap (w ++ w') :=
  ⟨by simp [h.nonempty], free_append.2 ⟨h.free, free⟩⟩

end Solid

end

/-! ## Lines and words -/

/-- Whether a character stands between lines. -/
def isNewline (c : Char) : Bool := c == '\n'

/-- The characters that stand between words. -/
def gaps : List Char := [' ', ',', '(', ')', '\n']

/-- Whether a character stands between words. -/
def isGap (c : Char) : Bool := gaps.contains c

/-- The lines of a text that are not empty. -/
def lines (text : String) : List String := stretches isNewline text.toList

/-- The words of a line. -/
def words (line : String) : List String := stretches isGap line.toList

/-- A text that is a single word. -/
abbrev IsWord (text : String) : Prop := Solid isGap text

/-- What passes a test that no gap passes is no gap. -/
theorem isGap_eq_false {test : Char → Bool} (apart : gaps.any test = false) {c : Char}
    (passes : test c = true) : isGap c = false := by
  rw [← Bool.not_eq_true, isGap, List.contains_iff_mem]
  exact fun mem => List.any_eq_false.1 apart c mem passes

section

variable {mark before after : String} {rest : List Char} {texts : List String}

/-- Whether a text has gaps at both ends, so that words end before it and start behind it. -/
def isMark (text : String) : Bool := text.toList.head?.any isGap && text.toList.getLast?.any isGap

theorem IsWord.words (h : IsWord before) : words before = [before] := h.stretches

/-- Behind a gap a word starts. -/
theorem words_behind (h : before.toList.getLast?.any isGap = true) :
    words (before ++ after) = words before ++ words after := by
  obtain ⟨c, ends, is⟩ := (Option.any_eq_true _ _).1 h
  obtain ⟨start, eq⟩ := List.getLast?_eq_some_iff.1 ends
  simp [words, eq, stretches_append_cons is]

theorem words_parted (h : isMark mark = true) :
    words (before ++ mark ++ after) = words before ++ words mark ++ words after := by
  obtain ⟨starts, ends⟩ := Bool.and_eq_true_iff.1 h
  have last : (before ++ mark).toList.getLast?.any isGap = true := by
    obtain ⟨c, ends, is⟩ := (Option.any_eq_true _ _).1 ends
    simp [List.getLast?_append, ends, is]
  obtain ⟨c, first, is⟩ := (Option.any_eq_true _ _).1 starts
  obtain ⟨rest, eq⟩ := List.head?_eq_some_iff.1 first
  rw [words_behind last]
  simp [words, eq, stretches_append_cons is, stretches_cons is]

/-- A list of words between parentheses. -/
theorem words_arguments (h : ∀ text ∈ texts, IsWord text) (closing : after.toList = ')' :: rest) :
    words (before ++ "(" ++ Text.joinWith ", " texts ++ after) =
      words before ++ texts ++ stretches isGap rest := by
  have opens : isGap '(' = true := by decide
  have closes : isGap ')' = true := by decide
  have comma : isGap ',' = true := by decide
  have blank : isGap ' ' = true := by decide
  have joined : stretches isGap ((Text.joinWith ", " texts).toList ++ ')' :: rest) =
      texts ++ stretches isGap rest := by
    induction texts with
    | nil => exact stretches_cons closes
    | cons first others ih =>
      obtain ⟨isWord, h⟩ := List.forall_mem_cons.1 h
      cases others with
      | nil => exact isWord.stretches_append_cons closes
      | cons second others =>
        simpa [Text.joinWith_cons_cons, isWord.stretches_append_cons comma, stretches_cons blank]
          using ih h
  simp [words, closing, stretches_append_cons opens, joined]

end

/-! ## Operands and places -/

/-- The number with the given digits. -/
def number (digits : List Char) : Nat := Nat.ofDigitChars 10 digits 0

/-- The temporary that a word stands for. -/
def Temp.ofWord (word : String) : Temp := number word.toList.tail

/-- The operand that a word stands for. -/
def Operand.ofWord (word : String) : Operand :=
  match word.toList with
  | 't' :: digits => .temp (number digits)
  | '-' :: digits => .const (-number digits)
  | digits => .const (number digits)

/-- The place that a word stands for. -/
def Place.ofWord (word : String) : Place :=
  match word.toList with
  | '@' :: name => .global (String.ofList name)
  | name => .frame (String.ofList name.tail)

/-- The name of a variable that lives in a place. -/
def Place.name : Place → String
  | frame name => name
  | global name => name

@[simp] theorem number_toDigits (n : Nat) : number (Nat.toDigits 10 n) = n :=
  Nat.ofDigitChars_ten_toDigits

theorem toList_tempText (t : Temp) : (Temp.text t).toList = 't' :: Nat.toDigits 10 t := by
  simp [Temp.text]

theorem toList_constText (value : Int) :
    (Operand.const value).text.toList =
      if value < 0 then '-' :: Nat.toDigits 10 value.natAbs else Nat.toDigits 10 value.natAbs := by
  cases value with
  | ofNat n => exact Nat.toList_repr
  | negSucc n =>
    have text : (Operand.const (.negSucc n)).text = "-" ++ (n + 1).repr := rfl
    simp [text, Int.negSucc_lt_zero]

theorem isDigit_of_mem_toDigits {n : Nat} {c : Char} (mem : c ∈ Nat.toDigits 10 n) :
    c.isDigit = true :=
  Nat.isDigit_of_mem_toDigits (by decide) (by decide) mem

/-- Digits stand between no words. -/
theorem isGap_of_mem_toDigits {n : Nat} {c : Char} (mem : c ∈ Nat.toDigits 10 n) :
    isGap c = false :=
  isGap_eq_false (by decide) (isDigit_of_mem_toDigits mem)

theorem isWord_tempText (t : Temp) : IsWord t.text := by
  constructor
  · simp [Temp.text]
  · have first : isGap 't' = false := by decide
    simpa [Free, toList_tempText, first] using fun c => isGap_of_mem_toDigits

theorem isWord_operandText (o : Operand) : IsWord o.text := by
  cases o with
  | temp number => exact isWord_tempText number
  | const value =>
    have sign : isGap '-' = false := by decide
    have digits : ∀ c ∈ Nat.toDigits 10 value.natAbs, isGap c = false :=
      fun c => isGap_of_mem_toDigits
    constructor
    · rw [Ne, ← String.toList_inj, toList_constText]
      split <;> simp
    · rw [Free, toList_constText]
      split
      · simpa [sign] using digits
      · exact digits

theorem isWord_placeText {p : Place} (h : IsWord p.name) : IsWord p.text := by
  cases p with
  | frame name => exact Solid.append (w := "%") (by decide) h.free
  | global name => exact Solid.append (w := "@") (by decide) h.free

@[simp] theorem Temp.ofWord_text (t : Temp) : Temp.ofWord t.text = t := by
  simp [ofWord, toList_tempText]

@[simp] theorem Operand.ofWord_text (o : Operand) : ofWord o.text = o := by
  cases o with
  | temp number => simp [ofWord, text, toList_tempText]
  | const value =>
    have digit {c : Char} {digits : List Char}
        (first : Nat.toDigits 10 value.natAbs = c :: digits) : c.isDigit = true :=
      isDigit_of_mem_toDigits (first ▸ List.mem_cons_self)
    rw [ofWord, toList_constText]
    by_cases negative : value < 0
    · have read : -((number (Nat.toDigits 10 value.natAbs) : Nat) : Int) = value := by
        rw [number_toDigits]
        omega
      simpa [negative] using read
    · have read : ((number (Nat.toDigits 10 value.natAbs) : Nat) : Int) = value := by
        rw [number_toDigits]
        omega
      rw [if_neg negative]
      split
      next first => exact absurd (digit first) (by decide)
      next first => exact absurd (digit first) (by decide)
      next => rw [read]

@[simp] theorem Place.ofWord_text (p : Place) : ofWord p.text = p := by
  cases p with
  | frame name => simp [ofWord, text]
  | global name => simp [ofWord, text]

/-! ## Instructions -/

namespace Instr

/-- The names that an instruction speaks of. -/
def names : Instr → List String
  | load _ place | store place _ => [place.name]
  | call _ callee _ => [callee]
  | jump target => [target]
  | branch _ thenLabel elseLabel => [thenLabel, elseLabel]
  | label name => [name]
  | binary .. | unary .. | ret _ => []

/-- The words of the line of an instruction. -/
def words : Instr → List String
  | binary dest op left right => [dest.text, "=", op.instruction, left.text, right.text]
  | unary dest op operand => [dest.text, "=", op.instruction, operand.text]
  | load dest place => [dest.text, "=", "load", place.text]
  | store place value => ["store", place.text, value.text]
  | call (some dest) callee arguments =>
    dest.text :: "=" :: "call" :: callee :: arguments.map Operand.text
  | call none callee arguments => "call" :: callee :: arguments.map Operand.text
  | jump target => ["jump", target]
  | branch condition thenLabel elseLabel => ["branch", condition.text, thenLabel, elseLabel]
  | label name => [name ++ ":"]
  | ret (some value) => ["return", value.text]
  | ret none => ["return"]

/-- The binary operator with an instruction of the given name. -/
def operatorOf (name : String) : BinaryOp :=
  (BinaryOp.all.find? (·.instruction == name)).getD .add

/-- The instruction that computes a value, from the words behind the equals sign. -/
def ofValueWords (dest : Temp) (line : List String) : Instr :=
  let word (k : Nat) := line.getD k ""
  if word 0 = "load" then load dest (.ofWord (word 1))
  else if word 0 = "call" then call (some dest) (word 1) ((line.drop 2).map Operand.ofWord)
  else if word 0 = "neg" then unary dest .neg (.ofWord (word 1))
  else if word 0 = "not" then unary dest .not (.ofWord (word 1))
  else binary dest (operatorOf (word 0)) (.ofWord (word 1)) (.ofWord (word 2))

/-- The instruction with a line of the given words. -/
def ofWords (line : List String) : Instr :=
  let word (k : Nat) := line.getD k ""
  if word 0 = "store" then store (.ofWord (word 1)) (.ofWord (word 2))
  else if word 0 = "call" then call none (word 1) ((line.drop 2).map Operand.ofWord)
  else if word 0 = "jump" then jump (word 1)
  else if word 0 = "branch" then branch (.ofWord (word 1)) (word 2) (word 3)
  else if word 0 = "return" then ret (line.tail.head?.map Operand.ofWord)
  else if word 1 = "=" then ofValueWords (Temp.ofWord (word 0)) (line.drop 2)
  else label (String.ofList (word 0).toList.dropLast)

/-- The words that start the lines of headers and of instructions without a value. -/
def keywords : List String := ["fn", "store", "call", "jump", "branch", "return"]

theorem tempText_notMem_keywords (t : Temp) : Temp.text t ∉ keywords := by
  intro mem
  have first : ∀ word ∈ keywords, word.toList.head? ≠ some 't' := by decide
  exact first _ mem (by simp [toList_tempText])

theorem labelText_notMem_keywords (name : String) : name ++ ":" ∉ keywords := by
  intro mem
  have last : ∀ word ∈ keywords, word.toList.getLast? ≠ some ':' := by decide
  exact last _ mem (by simp)

/-- The words of an instruction determine it. -/
theorem ofWords_words (i : Instr) : ofWords i.words = i := by
  cases i with
  | binary dest op left right =>
    have start := tempText_notMem_keywords dest
    have reads : ofWords (binary dest op left right).words =
        ofValueWords dest [op.instruction, left.text, right.text] := by
      simp_all [words, ofWords, keywords]
    rw [reads]
    cases op <;> simp [ofValueWords, BinaryOp.instruction] <;> rfl
  | unary dest op operand =>
    have start := tempText_notMem_keywords dest
    cases op <;> simp_all [words, ofWords, ofValueWords, UnaryOp.instruction, keywords]
  | load dest place =>
    have start := tempText_notMem_keywords dest
    simp_all [words, ofWords, ofValueWords, keywords]
  | store place value => simp [words, ofWords]
  | call dest callee arguments =>
    have operands : Operand.ofWord ∘ Operand.text = id := funext Operand.ofWord_text
    cases dest with
    | none => simp [words, ofWords, operands]
    | some dest =>
      have start := tempText_notMem_keywords dest
      simp_all [words, ofWords, ofValueWords, keywords]
  | jump target => simp [words, ofWords]
  | branch condition thenLabel elseLabel => simp [words, ofWords]
  | label name =>
    have start := labelText_notMem_keywords name
    simp_all [words, ofWords, keywords]
  | ret value => cases value <;> simp [words, ofWords]

example : ofWords ["t3", "=", "call", "f", "t1", "-5"] =
    call (some 3) "f" [.temp 1, .const (-5)] := by decide

/-- The words in what is written between names, operands and places. -/
theorem words_marks :
    Ir.words " " = [] ∧ Ir.words "  " = [] ∧ Ir.words ", " = [] ∧ Ir.words " = " = ["="] ∧
      Ir.words " = load " = ["=", "load"] ∧ Ir.words "  store " = ["store"] ∧
      Ir.words "call " = ["call"] ∧ Ir.words "  jump " = ["jump"] ∧
      Ir.words "  branch " = ["branch"] ∧ Ir.words "  return " = ["return"] ∧
      Ir.words "  return" = ["return"] := by
  decide

theorem words_callText {callee : String} (isWord : IsWord callee) (arguments : List Operand) :
    Ir.words (callText callee arguments) = "call" :: callee :: arguments.map Operand.text := by
  have operands : ∀ text ∈ arguments.map Operand.text, IsWord text := by
    simpa using fun o _ => isWord_operandText o
  rw [callText, words_arguments operands rfl, words_behind (by decide), isWord.words]
  simp [words_marks]

/-- The line of an instruction has its words, if the names in it are words. -/
theorem words_text {i : Instr} (h : ∀ name ∈ i.names, IsWord name) :
    Ir.words i.text = i.words := by
  have temp (t : Temp) := (isWord_tempText t).words
  have operand (o : Operand) := (isWord_operandText o).words
  cases i with
  | binary dest op left right =>
    have op : IsWord op.instruction := by cases op <;> decide
    simp (disch := decide) [text, words, words_parted, words_behind, words_marks, temp, operand,
      op.words]
  | unary dest op _ =>
    have op : IsWord op.instruction := by cases op <;> decide
    simp (disch := decide) [text, words, words_parted, words_behind, words_marks, temp, operand,
      op.words]
  | load dest place =>
    have place := (isWord_placeText (h _ List.mem_cons_self)).words
    simp (disch := decide) [text, words, words_parted, words_behind, words_marks, temp, place]
  | store place value =>
    have place := (isWord_placeText (h _ List.mem_cons_self)).words
    simp (disch := decide) [text, words, words_parted, words_behind, words_marks, operand, place]
  | call dest callee arguments =>
    have call := words_callText (h _ List.mem_cons_self) arguments
    cases dest <;>
      simp (disch := decide) [text, words, words_parted, words_behind, words_marks, temp, call]
  | jump target =>
    have target := (h _ List.mem_cons_self).words
    simp (disch := decide) [text, words, words_behind, words_marks, target]
  | branch condition thenLabel elseLabel =>
    have yes := (h thenLabel (by simp [names])).words
    have no := (h elseLabel (by simp [names])).words
    simp (disch := decide) [text, words, words_parted, words_behind, words_marks, operand, yes, no]
  | label name =>
    have isWord : IsWord (name ++ ":") := (h _ List.mem_cons_self).append (by decide)
    exact isWord.words
  | ret value =>
    cases value with
    | none => simp [words, words_marks, text]
    | some value => simp (disch := decide) [text, words, words_behind, words_marks, operand]

/-- An instruction has words, and the first one is not that of a header. -/
theorem exists_words (i : Instr) : ∃ first others, i.words = first :: others ∧ first ≠ "fn" := by
  have temp (t : Temp) : t.text ≠ "fn" := fun eq =>
    tempText_notMem_keywords t (by simp [eq, keywords])
  have label (name : String) : name ++ ":" ≠ "fn" := fun eq =>
    labelText_notMem_keywords name (by simp [eq, keywords])
  cases i with
  | call dest _ _ => cases dest <;> simp [words, temp]
  | ret value => cases value <;> simp [words]
  | _ => simp [words, temp, label]

end Instr

/-! ## Lines -/

/-- A text that stands on one line. -/
abbrev Inline (text : String) : Prop := Free isNewline text

theorem IsWord.inline {w : String} (h : IsWord w) : Inline w := by
  intro c mem
  have := h.free c mem
  simp_all [isGap, gaps, isNewline]

theorem inline_callText {callee : String} (isWord : IsWord callee) (arguments : List Operand) :
    Inline (callText callee arguments) := by
  have operands : ∀ text ∈ arguments.map Operand.text, Inline text := by
    simpa using fun o _ => (isWord_operandText o).inline
  have joined : Inline (Text.joinWith ", " (arguments.map Operand.text)) :=
    free_joinWith (by decide) operands
  simp +decide [callText, isWord.inline, joined]

theorem Instr.inline_text {i : Instr} (h : ∀ name ∈ i.names, IsWord name) : Inline i.text := by
  have temp (t : Temp) := (isWord_tempText t).inline
  have operand (o : Operand) := (isWord_operandText o).inline
  cases i with
  | binary dest op left right =>
    cases op <;> simp +decide [text, BinaryOp.instruction, temp, operand]
  | unary dest op _ => cases op <;> simp +decide [text, UnaryOp.instruction, temp, operand]
  | load dest place =>
    have place := (isWord_placeText (h _ List.mem_cons_self)).inline
    simp +decide [text, temp, place]
  | store place value =>
    have place := (isWord_placeText (h _ List.mem_cons_self)).inline
    simp +decide [text, operand, place]
  | call dest callee arguments =>
    have call := inline_callText (h _ List.mem_cons_self) arguments
    cases dest <;> simp +decide [text, temp, call]
  | jump target => simp +decide [text, (h _ List.mem_cons_self).inline]
  | branch condition thenLabel elseLabel =>
    have yes := (h thenLabel (by simp [names])).inline
    have no := (h elseLabel (by simp [names])).inline
    simp +decide [text, operand, yes, no]
  | label name => simp +decide [text, (h _ List.mem_cons_self).inline]
  | ret value => cases value <;> simp +decide [text, operand]

/-! ## Functions -/

namespace Function

/-- The line that a function starts with. -/
def header (f : Function) : String :=
  "fn " ++ f.name ++ "(" ++ Text.joinWith ", " (f.params.map Place.text) ++ "):"

/-- The words of the lines of a function. -/
def wordLines (f : Function) : List (List String) :=
  ("fn" :: f.name :: (f.params.map Place.text ++ [":"])) :: f.code.map Instr.words

/-- A function whose names are words, with as many temporaries as its code writes. -/
structure Readable (f : Function) : Prop where
  name : IsWord f.name
  params : ∀ place ∈ f.params, IsWord place.name
  code : ∀ i ∈ f.code, ∀ name ∈ i.names, IsWord name
  temps : (f.code.filterMap Instr.dest?).length = f.temps

namespace Readable

variable {f : Function}

theorem isWord_paramTexts (h : f.Readable) : ∀ text ∈ f.params.map Place.text, IsWord text := by
  simpa using fun place mem => isWord_placeText (h.params place mem)

theorem words_header (h : f.Readable) :
    words f.header = "fn" :: f.name :: (f.params.map Place.text ++ [":"]) := by
  have keyword : words "fn " = ["fn"] := by decide
  have closing : "):".toList = ')' :: [':'] := rfl
  have colon : stretches isGap [':'] = [":"] := by decide
  rw [header, words_arguments h.isWord_paramTexts closing, words_behind (by decide), h.name.words]
  simp [keyword, colon]

theorem map_words_lines (h : f.Readable) : f.lines.map words = f.wordLines := by
  have code : (f.code.map Instr.text).map words = f.code.map Instr.words := by
    rw [List.map_map]
    exact List.map_congr_left fun i mem => Instr.words_text (h.code i mem)
  rw [wordLines, ← code, ← h.words_header]
  rfl

/-- No line of a function is empty or ends before its end. -/
theorem solid_lines (h : f.Readable) : ∀ line ∈ f.lines, Solid isNewline line := by
  have nonempty {line : String} (some : words line ≠ []) : line ≠ "" := by
    rintro rfl
    exact some (by decide)
  intro line mem
  rcases List.mem_cons.1 mem with rfl | mem
  · have joined : Inline (Text.joinWith ", " (f.params.map Place.text)) :=
      free_joinWith (by decide) fun text mem => (h.isWord_paramTexts text mem).inline
    have inline : Inline f.header := by simp +decide [header, h.name.inline, joined]
    exact ⟨nonempty (h.words_header ▸ List.cons_ne_nil _ _), inline⟩
  · obtain ⟨i, inCode, rfl⟩ := List.mem_map.1 mem
    obtain ⟨first, others, some, -⟩ := i.exists_words
    rw [← Instr.words_text (h.code i inCode)] at some
    exact ⟨nonempty (some ▸ List.cons_ne_nil _ _), Instr.inline_text (h.code i inCode)⟩

end Readable

/-- What lines stand for: the instructions before the first header, and the functions. -/
def ofWordLines : List (List String) → List Instr × List Function
  | [] => ([], [])
  | line :: others =>
    let (code, functions) := ofWordLines others
    if line.head? = some "fn" then
      ([], { name := line.getD 1 "", params := ((line.drop 2).dropLast).map Place.ofWord,
             code := code, temps := (code.filterMap Instr.dest?).length } :: functions)
    else (.ofWords line :: code, functions)

theorem ofWordLines_code (code : List Instr) (others : List (List String)) :
    ofWordLines (code.map Instr.words ++ others) =
      (code ++ (ofWordLines others).1, (ofWordLines others).2) := by
  induction code with
  | nil => rfl
  | cons i code ih =>
    obtain ⟨first, rest, words, noHeader⟩ := i.exists_words
    have read := Instr.ofWords_words i
    rw [words] at read
    simp [ofWordLines, ih, words, noHeader, read]

theorem ofWordLines_flatMap {functions : List Function} (h : ∀ f ∈ functions, f.Readable) :
    ofWordLines (functions.flatMap wordLines) = ([], functions) := by
  induction functions with
  | nil => rfl
  | cons f functions ih =>
    obtain ⟨readable, h⟩ := List.forall_mem_cons.1 h
    have places : Place.ofWord ∘ Place.text = id := funext Place.ofWord_text
    simp [wordLines, ofWordLines, ofWordLines_code, ih h, places, readable.temps]

end Function

/-! ## Programs -/

section

variable {texts : List String}

/-- Lines that are written one after the other, before more text. -/
theorem stretches_join (h : ∀ text ∈ texts, Solid isNewline text) (more : List Char) :
    stretches isNewline ((String.join (texts.map (· ++ "\n"))).toList ++ more) =
      texts ++ stretches isNewline more := by
  have newline : isNewline '\n' = true := by decide
  induction texts with
  | nil => rfl
  | cons first others ih =>
    obtain ⟨solid, h⟩ := List.forall_mem_cons.1 h
    simpa [solid.stretches_append_cons newline] using ih h

end

namespace Program

/-- A program whose functions are readable. -/
def Readable (p : Program) : Prop := ∀ f ∈ p.functions, f.Readable

/-- The program with the given text. -/
def ofText (text : String) : Program := ⟨(Function.ofWordLines ((lines text).map words)).2⟩

variable {p q : Program}

theorem Readable.lines_text (h : p.Readable) :
    lines p.text = p.functions.flatMap Function.lines := by
  obtain ⟨functions⟩ := p
  have newline : isNewline '\n' = true := by decide
  change lines (Text.joinWith "\n" (functions.map Function.text)) = functions.flatMap Function.lines
  induction functions with
  | nil => rfl
  | cons f functions ih =>
    obtain ⟨readable, h⟩ := List.forall_mem_cons.1 h
    have written := stretches_join readable.solid_lines
    cases functions with
    | nil => simpa [lines, Text.joinWith, Function.text] using written []
    | cons g functions =>
      rw [List.flatMap_cons, ← ih h, List.map_cons, List.map_cons, Text.joinWith_cons_cons, lines,
        String.toList_append, String.toList_append, List.append_assoc, Function.text, written]
      exact congrArg (f.lines ++ ·) (stretches_cons newline)

/-- The text of a readable program gives the program back. -/
theorem ofText_text (h : p.Readable) : ofText p.text = p := by
  have wordLines : (p.functions.flatMap Function.lines).map words =
      p.functions.flatMap Function.wordLines := by
    rw [List.map_flatMap, List.flatMap_def, List.flatMap_def]
    exact congrArg List.flatten (List.map_congr_left fun f mem => (h f mem).map_words_lines)
  rw [ofText, h.lines_text, wordLines, Function.ofWordLines_flatMap h]

/-- Different readable programs have different texts. -/
theorem Readable.eq_of_text_eq (hp : p.Readable) (hq : q.Readable) (same : p.text = q.text) :
    p = q := by
  rw [← ofText_text hp, same, ofText_text hq]

end Program

end MiniLang.Ir
