import MiniLang.Proofs.Text.Snippet

/-!
# Looking lines up

Every place of a text is on one of its lines, the place behind the last character included, and two
places are on the same line if no newline stands between them (`OnLine.eq_of_sameLine`). Looking a
place up gives this line without the carriage returns at its end, and how far the place is from
where the line starts (`lineAt?_onLine`, `lineAt?_of_le`). The carriage returns are part of the line
all the same: a place behind one of them is farther from the start than what is given reaches. At
the end of a text that lacks its last newline the lookup takes another way, which keeps the carriage
returns (`lineAt?_carriageReturns`).
-/

set_option autoImplicit false

namespace MiniLang.Text

/-! ## Lines around places -/

/-- A text is cut into a line, what is before the line, and what is behind it, and a place is on the
line: at one of its bytes or right behind the last one. -/
structure OnLine (source : List Char) (position : Nat) (before line after : List Char) : Prop where
  whole : source = before ++ (line ++ after)
  starts : ∀ c ∈ before.getLast?, c = '\n'
  inLine : '\n' ∉ line
  ends : ∀ c ∈ after.head?, c = '\n'
  reached : byteLength before ≤ position
  within : position ≤ byteLength before + byteLength line

/-- No newline stands between two places of a text. -/
def SameLine (source : List Char) (a b : Nat) : Prop :=
  ∀ before after, source = before ++ '\n' :: after →
    ¬(min a b ≤ byteLength before ∧ byteLength before < max a b)

/-- A place is the end of a text that ends with a carriage return. -/
def AtReturn (source : List Char) (position : Nat) : Prop :=
  position = byteLength source ∧ source.getLast? = some '\r'

section

theorem byteLength_append_newline (line rest : List Char) :
    byteLength (line ++ '\n' :: rest) = byteLength (line ++ ['\n']) + byteLength rest := by
  simp [Nat.add_assoc]

variable {source before line after : List Char} {position : Nat}

/-- The first line of a text. -/
theorem OnLine.first (inLine : '\n' ∉ line) (ends : ∀ c ∈ after.head?, c = '\n')
    (within : position ≤ byteLength line) : OnLine (line ++ after) position [] line after :=
  ⟨rfl, by rintro c ⟨⟩, inLine, ends, Nat.zero_le _, by rwa [byteLength_nil, Nat.zero_add]⟩

/-- A line of a text that stands behind another line. -/
theorem OnLine.behind (h : OnLine source position before line after) (earlier : List Char) :
    OnLine (earlier ++ '\n' :: source) (byteLength (earlier ++ ['\n']) + position)
      (earlier ++ '\n' :: before) line after where
  whole := by rw [h.whole, List.append_assoc, List.cons_append]
  starts := by
    intro c mem
    rw [List.getLast?_append, List.getLast?_cons] at mem
    cases last : before.getLast? with
    | none => simpa [last, eq_comm] using mem
    | some d =>
      rw [last] at mem
      exact h.starts c (by simpa [last] using mem)
  inLine := h.inLine
  ends := h.ends
  reached := by
    have reached := h.reached
    simp only [byteLength_append, byteLength_cons, byteLength_nil]
    omega
  within := by
    have within := h.within
    simp only [byteLength_append, byteLength_cons, byteLength_nil]
    omega

theorem lineRest_append (inLine : '\n' ∉ line) (ends : ∀ c ∈ after.head?, c = '\n') :
    lineRest (line ++ after) = line := by
  have passes : ∀ c ∈ line, decide (c ≠ '\n') = true := fun c mem => decide_eq_true fun same =>
    inLine (same ▸ mem)
  rw [lineRest, List.takeWhile_append_of_pos passes]
  cases after with
  | nil => exact List.append_nil line
  | cons c after => rw [ends c rfl, List.takeWhile_cons_of_neg (by simp), List.append_nil]

variable {before' line' after' : List Char} {position' : Nat}

/-- Between a line and one that starts behind it there is a newline. -/
theorem OnLine.newline_between (h : OnLine source position before line after)
    (h' : OnLine source position' before' line' after')
    (less : byteLength before < byteLength before') :
    ∃ earlier later, source = earlier ++ '\n' :: later ∧
      byteLength before + byteLength line ≤ byteLength earlier ∧
      byteLength earlier < byteLength before' := by
  obtain ⟨between, rfl⟩ : before <+: before' :=
    Span.prefix_of_byteLength_le ⟨_, h.whole.symm⟩ ⟨_, h'.whole.symm⟩ less.le
  have nonempty : between ≠ [] := by
    rintro rfl
    simp at less
  obtain ⟨front, last, rfl⟩ := (List.eq_nil_or_concat' between).resolve_left nonempty
  obtain rfl : last = '\n' := h'.starts last (by simp)
  have same : line ++ after = front ++ '\n' :: (line' ++ after') := by
    have whole := h.whole.symm.trans h'.whole
    rw [List.append_assoc, List.append_assoc] at whole
    exact List.append_cancel_left whole
  -- the line cannot reach beyond the newline
  have shorter : line <+: front := by
    rcases List.prefix_or_prefix_of_prefix (List.prefix_append line after)
      (same ▸ List.prefix_append front _) with short | ⟨more, rfl⟩
    · exact short
    · rw [List.append_assoc] at same
      have rest := List.append_cancel_left same
      cases more with
      | nil => exact ⟨[], by simp⟩
      | cons c more =>
        obtain ⟨rfl, -⟩ := List.cons.inj rest
        exact absurd (by simp) h.inLine
  obtain ⟨rest, rfl⟩ := shorter
  refine ⟨before ++ (line ++ rest), line' ++ after', ?_, ?_, ?_⟩
  · rw [h'.whole]
    simp
  · simp
  · have newline : '\n'.utf8Size = 1 := rfl
    simp [newline]

/-- No newline stands between two places of a line. -/
theorem OnLine.sameLine (h : OnLine source position before line after)
    (h' : OnLine source position' before line after) : SameLine source position position' := by
  intro earlier later whole ⟨le, lt⟩
  have reached := h.reached
  have within := h.within
  have reached' := h'.reached
  have within' := h'.within
  have newline : byteLength ['\n'] = 1 := rfl
  have upTo : earlier ++ ['\n'] <+: source := ⟨later, by rw [whole]; simp⟩
  have front : before <+: source := ⟨_, h.whole.symm⟩
  obtain ⟨between, rfl⟩ : before <+: earlier :=
    Span.prefix_of_byteLength_le front ⟨_, whole.symm⟩ (by omega)
  have inside : before ++ between ++ ['\n'] <+: before ++ line := by
    refine Span.prefix_of_byteLength_le upTo ⟨after, by rw [h.whole, List.append_assoc]⟩ ?_
    rw [byteLength_append _ ['\n'], newline, byteLength_append before line]
    omega
  rw [List.append_assoc, List.prefix_append_right_inj] at inside
  exact h.inLine (inside.subset (by simp))

/-- Two places without a newline between them are on one line. -/
theorem OnLine.eq_of_sameLine (h : OnLine source position before line after)
    (h' : OnLine source position' before' line' after')
    (same : SameLine source position position') : before = before' ∧ line = line' := by
  have reached := h.reached
  have within := h.within
  have reached' := h'.reached
  have within' := h'.within
  rcases Nat.lt_trichotomy (byteLength before) (byteLength before') with less | equal | greater
  · obtain ⟨earlier, later, whole, le, lt⟩ := h.newline_between h' less
    exact absurd (by omega) (same earlier later whole)
  · have first : before <+: before' :=
      Span.prefix_of_byteLength_le ⟨_, h.whole.symm⟩ ⟨_, h'.whole.symm⟩ equal.le
    have second : before' <+: before :=
      Span.prefix_of_byteLength_le ⟨_, h'.whole.symm⟩ ⟨_, h.whole.symm⟩ equal.ge
    obtain rfl : before = before' := first.eq_of_length (first.length_le.antisymm second.length_le)
    have rest := List.append_cancel_left (h.whole.symm.trans h'.whole)
    refine ⟨rfl, ?_⟩
    rw [← lineRest_append h.inLine h.ends, rest, lineRest_append h'.inLine h'.ends]
  · obtain ⟨earlier, later, whole, le, lt⟩ := h'.newline_between h greater
    exact absurd (by omega) (same earlier later whole)

/-! ## Looking up -/

/-- What is found for a place of a text that is not its end. -/
theorem findLine?_onLine (source : List Char) : ∀ position, position < byteLength source →
    ∃ before line after, OnLine source position before line after ∧
      findLine? (lines source) position =
        some (dropTerminator line, position - byteLength before) := by
  have newline : '\n'.utf8Size = 1 := rfl
  induction source using lines_induction with
  | last line inLine =>
    intro position less
    have nonempty : line ≠ [] := by
      rintro rfl
      cases less
    refine ⟨[], line, [], ?_, ?_⟩
    · have first : OnLine (line ++ []) position [] line [] :=
        .first inLine (by rintro c ⟨⟩) less.le
      rwa [List.append_nil] at first
    · rw [lines_of_notMem inLine nonempty, findLine?, if_pos less]
      rfl
  | newline line rest inLine ih =>
    intro position less
    rw [lines_append_newline inLine, findLine?]
    by_cases here : position < byteLength (line ++ ['\n'])
    · refine ⟨[], line, '\n' :: rest, .first inLine ?_ ?_, ?_⟩
      · rintro c ⟨⟩
        rfl
      · rw [byteLength_append, byteLength_cons, newline, byteLength_nil] at here
        omega
      · rw [if_pos here, dropTerminator_newline]
        rfl
    · have later : position - byteLength (line ++ ['\n']) < byteLength rest := by
        rw [byteLength_append_newline] at less
        omega
      obtain ⟨before, found, after, on, looked⟩ := ih _ later
      refine ⟨line ++ '\n' :: before, found, after, ?_, ?_⟩
      · have behind := on.behind line
        rwa [Nat.add_sub_cancel' (Nat.le_of_not_lt here)] at behind
      · rw [if_neg here, looked, byteLength_append_newline line before, Nat.sub_add_eq]

/-- The end of a text is on its last line. -/
theorem onLine_end (source : List Char) :
    ∃ before, OnLine source (byteLength source) before (lastLine source) [] ∧
      byteLength source = byteLength before + byteLength (lastLine source) := by
  induction source using lines_induction with
  | last line inLine =>
    rw [lastLine_of_notMem inLine]
    have first : OnLine (line ++ []) (byteLength line) [] line [] :=
      .first inLine (by rintro c ⟨⟩) (Nat.le_refl _)
    rw [List.append_nil] at first
    exact ⟨[], first, (Nat.zero_add _).symm⟩
  | newline line rest inLine ih =>
    obtain ⟨before, on, size⟩ := ih
    rw [lastLine_append_newline, byteLength_append_newline]
    refine ⟨line ++ '\n' :: before, on.behind line, ?_⟩
    rw [byteLength_append_newline line before, size, Nat.add_assoc]

/-! ## What is given -/

/-- What is given of a line does not end with a carriage return. -/
theorem getLast?_dropTerminator (line : List Char) :
    (dropTerminator line).getLast? ≠ some '\r' := by
  intro last
  rw [dropTerminator, List.getLast?_reverse] at last
  have fails := List.head?_dropWhile_not (fun c => c = '\n' || c = '\r') line.reverse
  rw [last] at fails
  cases fails

theorem byteLength_returns (returns : Nat) :
    byteLength (List.replicate returns '\r') = returns := by
  have size : '\r'.utf8Size = 1 := rfl
  induction returns with
  | zero => rfl
  | succ returns ih => rw [List.replicate_succ, byteLength_cons, ih, size, Nat.add_comm]

/-- A line that does not end with a carriage return is given as it is. -/
theorem dropTerminator_eq_self (inLine : '\n' ∉ line) (last : line.getLast? ≠ some '\r') :
    dropTerminator line = line := by
  refine List.rdropWhile_eq_self_iff.2 fun nonempty => ?_
  have there : line.getLast nonempty ≠ '\n' := fun same => inLine (same ▸ List.getLast_mem _)
  have other : line.getLast nonempty ≠ '\r' := fun same =>
    last (by rw [List.getLast?_eq_getLast_of_ne_nil nonempty, same])
  simp [there, other]

/-- Looking up a place gives the line that it is on, and how far it is from where this starts. -/
theorem lineAt?_onLine (le : position ≤ byteLength source) :
    ∃ text before line after, OnLine source position before line after ∧
      lineAt? source position = some (text, position - byteLength before) ∧
      (¬AtReturn source position → text = dropTerminator line) := by
  have within : ¬byteLength source < position := Nat.not_lt.2 le
  rcases Nat.lt_or_eq_of_le le with less | rfl
  · obtain ⟨before, line, after, on, found⟩ := findLine?_onLine source position less
    refine ⟨dropTerminator line, before, line, after, on, ?_, fun _ => rfl⟩
    rw [lineAt?, if_neg within, found]
    rfl
  · obtain ⟨before, on, size⟩ := onLine_end source
    refine ⟨lastLine source, before, lastLine source, [], on, ?_, fun firm => ?_⟩
    · rw [lineAt?, if_neg within, findLine?_end, size, Nat.add_sub_cancel_left]
      rfl
    · refine (dropTerminator_eq_self on.inLine fun last => firm ⟨rfl, ?_⟩).symm
      have whole := on.whole
      rw [List.append_nil] at whole
      rw [whole, List.getLast?_append, last]
      rfl

/-- A place of a text is on a line, and looking it up gives this line without the carriage returns
at its end and how far the place is from where the line starts, which is no farther than the line
reaches. All places of the line give the same. Only the end of a text that ends with a carriage
return is left out. -/
theorem lineAt?_of_le (le : position ≤ byteLength source) :
    ∃ text offset before line after,
      lineAt? source position = some (text, offset) ∧
      OnLine source position before line after ∧ offset = position - byteLength before ∧
      (¬AtReturn source position →
        (∃ returns, line = text ++ List.replicate returns '\r' ∧ text.getLast? ≠ some '\r' ∧
          offset ≤ byteLength text + returns) ∧
        ∀ other ≤ byteLength source, SameLine source position other → ¬AtReturn source other →
          ∃ offset', lineAt? source other = some (text, offset')) := by
  obtain ⟨text, before, line, after, on, found, given⟩ := lineAt?_onLine le
  refine ⟨text, _, before, line, after, found, on, rfl, fun firm => ?_⟩
  obtain rfl := given firm
  obtain ⟨returns, whole⟩ := exists_returns on.inLine
  refine ⟨⟨returns, whole, getLast?_dropTerminator line, ?_⟩, fun other le' same firm' => ?_⟩
  · have size : byteLength line = byteLength (dropTerminator line) + returns := by
      conv => lhs; rw [whole, byteLength_append, byteLength_returns]
    have within := on.within
    omega
  · obtain ⟨text', before', line', after', on', found', given'⟩ := lineAt?_onLine le'
    obtain ⟨-, rfl⟩ := on.eq_of_sameLine on' same
    rw [given' firm'] at found'
    exact ⟨_, found'⟩

/-- A carriage return and the newline behind it are on the line that they end. -/
theorem lineAt?_of_le_twoLines :
    ∃ before line after, OnLine ['a', '\r', '\n', 'b'] 1 before line after ∧
      lineAt? ['a', '\r', '\n', 'b'] 1 = some (['a'], 1 - byteLength before) ∧
      (∃ returns, line = ['a'] ++ List.replicate returns '\r' ∧ 1 ≤ 1 + returns) ∧
      ∃ offset', lineAt? ['a', '\r', '\n', 'b'] 2 = some (['a'], offset') := by
  have within : 1 ≤ byteLength ['a', '\r', '\n', 'b'] := by decide
  obtain ⟨text, offset, before, line, after, found, on, distance, rest⟩ := lineAt?_of_le within
  have firm : ¬AtReturn ['a', '\r', '\n', 'b'] 1 := fun h => absurd h.1 (by decide)
  have firm' : ¬AtReturn ['a', '\r', '\n', 'b'] 2 := fun h => absurd h.1 (by decide)
  have first : ∀ place ≤ 2,
      OnLine (['a', '\r'] ++ ['\n', 'b']) place [] ['a', '\r'] ['\n', 'b'] :=
    fun place le => .first (by decide) (by simp) le
  have same : SameLine ['a', '\r', '\n', 'b'] 1 2 :=
    (first 1 (by decide)).sameLine (first 2 (by decide))
  have here : lineAt? ['a', '\r', '\n', 'b'] 1 = some (['a'], 1) := by decide
  obtain ⟨rfl, rfl⟩ := Prod.mk.inj (Option.some.inj (found.symm.trans here))
  obtain ⟨⟨returns, whole, -, within⟩, others⟩ := rest firm
  refine ⟨before, line, after, on, ?_, ⟨returns, whole, within⟩, others 2 (by decide) same firm'⟩
  rw [← distance, here]

/-- A place behind a carriage return of its line is farther from where the line starts than what is
given reaches; and at the end of a text carriage returns are given that are not given at the other
places of the same line. -/
theorem lineAt?_carriageReturns :
    lineAt? ['a', '\r', '\n', 'b', '\r'] 2 = some (['a'], 2) ∧ byteLength ['a'] < 2 ∧
      SameLine ['a', '\r', '\n', 'b', '\r'] 3 5 ∧
      lineAt? ['a', '\r', '\n', 'b', '\r'] 3 = some (['b'], 0) ∧
      lineAt? ['a', '\r', '\n', 'b', '\r'] 5 = some (['b', '\r'], 2) := by
  have first : ∀ place ≤ 2, OnLine (['b', '\r'] ++ []) place [] ['b', '\r'] [] :=
    fun place le => .first (by decide) (by simp) le
  have last : ∀ place ≤ 2, OnLine ['a', '\r', '\n', 'b', '\r'] (3 + place)
      ['a', '\r', '\n'] ['b', '\r'] [] :=
    fun place le => (first place le).behind ['a', '\r']
  exact ⟨by decide, by decide, (last 0 (by decide)).sameLine (last 2 (by decide)), by decide,
    by decide⟩

end

end MiniLang.Text
