import MiniLang.Proofs.Token.Lexed

/-!
# Nothing is lost in reading

The tokens of a text give the text back: each is the piece of it that its span names, under the
line and column of its start, they stand one after the other, and between them is nothing but white
space and comments. The last token, and no other, ends the input, behind everything else. What is
reported is about the unknown tokens, one report for each (`deliveries_lossless`).
-/

set_option autoImplicit false

namespace MiniLang

open LexemeClass

/-- Text between tokens, given what comes behind it: white space, and comments, each of which is all
that is left of its line. -/
inductive Separates : List Char → List Char → Prop
  | nil {after : List Char} : Separates [] after
  | blank {c : Char} {gap after : List Char} (is : Text.isBlank c = true)
      (more : Separates gap after) : Separates (c :: gap) after
  | comment {opening body gap after : List Char} (opens : opening ∈ [['/', '/'], ['$']])
      (inLine : '\n' ∉ body) (ends : ∀ c ∈ (gap ++ after).head?, c = '\n')
      (more : Separates gap after) : Separates (opening ++ body ++ gap) after

/-- Between the end of one span and the start of another there is no text but what separates. -/
def Span.Apart (source : List Char) (a b : Span) : Prop :=
  ∃ before gap after, source = before ++ gap ++ after ∧ Text.byteLength before = a.stop ∧
    Text.byteLength (before ++ gap) = b.start ∧ Separates gap after

/-- A token is the piece of the text that its span names. -/
structure Token.StandsIn (t : Token) (source : List Char) : Prop where
  slice : Text.sliceBytes? source t.span.start t.span.stop = some t.text.toList
  position : ∃ before after, Text.splitAtByte? source t.span.start = some (before, after) ∧
    t.span.line = 1 + before.count '\n' ∧ t.span.column = 1 + (Text.lastLine before).length

/-- What is wrong with an unknown token: its one character begins no token, or it is a number that
is too large. -/
def Token.Complaint (t : Token) (p : Problem) : Prop :=
  (∃ c, t.text.toList = [c] ∧ Integer.isDigit c = false ∧ p = .illegalCharacter c) ∨
    (∀ c ∈ t.text.toList, Integer.isDigit c = true) ∧ p = .integerOverflow t.text

/-- The deliveries show all of a text. -/
structure Lossless (source : List Char) (ds : List Delivery) : Prop where
  /-- The last token ends the input, behind the whole text, and no other token does. -/
  ending : ∃ front span, ds.map Delivery.token = front ++ [.endAt span] ∧
    span.start = Text.byteLength source ∧ span.stop = Text.byteLength source ∧
    ∀ t ∈ front, t.kind ≠ .endOfInput
  /-- A reader that is asked for one token after the other gives these and then nothing more. -/
  given : ∀ times, ((Lexer.start source).pulled times).next.1 = ds[times]?
  nonempty : ∀ d ∈ ds, d.token.kind ≠ .endOfInput → d.token.text ≠ ""
  stands : ∀ d ∈ ds, d.token.StandsIn source
  ordered : (ds.map fun d => d.token.span).Pairwise fun a b => a.start < a.stop ∧ a.stop ≤ b.start
  apart : (Span.origin :: ds.map fun d => d.token.span).IsChain (Span.Apart source)
  /-- What is recorded when they are taken is about the unknown tokens, one by one. -/
  complaints : ∀ s : Session, ∃ reported,
    (ds.foldl (fun s d => d.notify s) s).diagnostics = s.diagnostics ++ reported ∧
      List.Forall₂ (fun t x => ∃ p, t.Complaint p ∧ x = .of p t.span)
        ((ds.map Delivery.token).filter (·.kind = .unknown)) reported

/-! ## Gaps -/

namespace Separates

variable {first second after : List Char}

theorem blanks (all : ∀ c ∈ first, Text.isBlank c = true) : Separates first after := by
  induction first with
  | nil => exact .nil
  | cons c first ih =>
    exact .blank (all c List.mem_cons_self) (ih fun d mem => all d (List.mem_cons_of_mem c mem))

theorem append (h : Separates first (second ++ after)) (more : Separates second after) :
    Separates (first ++ second) after := by
  generalize same : second ++ after = behind at h
  induction h with
  | nil => exact more
  | blank is _ ih => exact .blank is (ih same)
  | @comment opening body gap behind opens inLine ends _ ih =>
    subst same
    rw [List.append_assoc]
    refine .comment opens inLine ?_ (ih rfl)
    rw [List.append_assoc]
    exact ends

end Separates

/-- A piece that becomes no token is text that separates. -/
theorem separates_of_firstPiece? {text rest : List Char}
    (found : firstPiece? (text ++ rest) = some (text, none)) : Separates text rest := by
  rcases firstPiece?_eq_some found with ⟨cls, first, skip⟩ | ⟨c, -, -, -, -, skip⟩
  · obtain ⟨mem, fits⟩ := firstMatch?_eq_some first
    cases cls with
    | name => cases skip
    | number =>
      simp only [meaning] at skip
      split at skip <;> cases skip
    | blank =>
      simp only [take?, run?] at fits
      split at fits
      · cases fits
      · rw [← Option.some.inj fits]
        exact .blanks fun c mem => List.all_eq_true.1 List.all_takeWhile c mem
    | comment opening =>
      obtain ⟨behind, cut, rfl⟩ := Option.map_eq_some_iff.1 fits
      have whole := List.isPrefixOf?_eq_some_iff_append_eq.1 cut
      rw [List.append_assoc] at whole
      -- the comment takes the rest of its line, so that what is left begins with a newline
      obtain rfl : behind.dropWhile (· ≠ '\n') = rest :=
        List.append_cancel_left
          (List.takeWhile_append_dropWhile.trans (List.append_cancel_left whole))
      have opens : opening ∈ [['/', '/'], ['$']] := by simpa [table] using mem
      have inLine : '\n' ∉ behind.takeWhile (· ≠ '\n') := fun mem => by
        simpa using List.all_eq_true.1 List.all_takeWhile _ mem
      have ends : ∀ c ∈ ([] ++ behind.dropWhile (· ≠ '\n')).head?, c = '\n' := fun c mem => by
        have stop := List.head?_dropWhile_not (· ≠ '\n') behind
        rw [show (behind.dropWhile (· ≠ '\n')).head? = some c from mem] at stop
        simpa using stop
      have gap := Separates.comment opens inLine ends .nil
      rwa [List.append_nil] at gap
    | sign text kind => cases skip
  · cases skip

theorem LexemeClass.take?_eq_none_of_firstMatch? {cs : List Char} {classes : List LexemeClass}
    (none : firstMatch? cs classes = none) : ∀ cls ∈ classes, cls.take? cs = .none := by
  induction classes with
  | nil => exact List.forall_mem_nil _
  | cons first rest ih =>
    unfold firstMatch? at none
    split at none
    · cases none
    next here => exact List.forall_mem_cons.2 ⟨here, ih none⟩

/-- A piece that becomes a token is unknown exactly when something is wrong with it. -/
theorem complaint_of_firstPiece? {cs text : List Char} {kind : TokenKind}
    {problem : Option Problem} (found : firstPiece? cs = some (text, some (kind, problem))) :
    (kind = .unknown ∧ ∃ p, problem = some p ∧
      ((∃ c, text = [c] ∧ Integer.isDigit c = false ∧ p = .illegalCharacter c) ∨
        (∀ c ∈ text, Integer.isDigit c = true) ∧ p = .integerOverflow (String.ofList text))) ∨
      kind ≠ .unknown ∧ problem = none := by
  rcases firstPiece?_eq_some found with ⟨cls, first, means⟩ | ⟨c, rest, rfl, rfl, noMatch, means⟩
  · obtain ⟨mem, fits⟩ := firstMatch?_eq_some first
    cases cls with
    | name =>
      cases means
      refine .inr ⟨?_, rfl⟩
      cases reserved : keyword? (String.ofList text) with
      | none => exact TokenKind.noConfusion
      | some kind => exact (keyword?_ne reserved).2
    | number =>
      simp only [meaning] at means
      split at means
      · cases means
        exact .inr ⟨TokenKind.noConfusion, rfl⟩
      · cases means
        refine .inl ⟨rfl, _, rfl, .inr ⟨?_, rfl⟩⟩
        simp only [take?, run?] at fits
        split at fits
        · cases fits
        · rw [← Option.some.inj fits]
          exact fun c mem => List.all_eq_true.1 List.all_takeWhile c mem
    | blank => cases means
    | comment => cases means
    | sign text kind =>
      cases means
      exact .inr ⟨(sign_kind mem).2, rfl⟩
  · cases means
    have noNumber := take?_eq_none_of_firstMatch? noMatch .number (by decide)
    refine .inl ⟨rfl, _, rfl, .inl ⟨c, rfl, ?_, rfl⟩⟩
    by_contra digit
    rw [Bool.not_eq_false] at digit
    simp [take?, run?, digit] at noNumber

namespace Reads

variable {before rest : List Char} {ds : List Delivery}

/-! ## Tokens in the text -/

/-- Every token is a piece of the text, empty only at the end. -/
theorem piece (h : Reads before rest ds) :
    ∀ d ∈ ds, ∃ early late, before ++ rest = early ++ d.token.text.toList ++ late ∧
      d.token.span = .over early d.token.text.toList ∧
      (d.token.kind ≠ .endOfInput → d.token.text.toList ≠ []) := by
  induction h with
  | @ending before =>
    intro d mem
    rw [List.mem_singleton.1 mem]
    exact ⟨before, [], by simp [Token.endAt], rfl, fun ne => absurd rfl ne⟩
  | separator found more ih =>
    rw [List.append_assoc] at ih
    exact ih
  | @token before text rest kind problem ds found more ih =>
    rw [List.append_assoc] at ih
    refine List.forall_mem_cons.2 ⟨⟨before, rest, ?_, ?_, fun _ => ?_⟩, ih⟩
    all_goals simp [(cut_of_firstPiece? found).1]

/-- The last token, and no other, ends the input. -/
theorem ending_last (h : Reads before rest ds) :
    ∃ front, ds.map Delivery.token = front ++ [.endAt (.over (before ++ rest) [])] ∧
      ∀ t ∈ front, t.kind ≠ .endOfInput := by
  induction h with
  | @ending before => exact ⟨[], by simp, by simp⟩
  | separator found more ih =>
    rw [List.append_assoc] at ih
    exact ih
  | @token before text rest kind problem ds found more ih =>
    obtain ⟨front, same, others⟩ := ih
    refine ⟨⟨kind, String.ofList text, .over before text⟩ :: front, ?_,
      List.forall_mem_cons.2 ⟨ne_endOfInput_of_firstPiece? found, others⟩⟩
    rw [List.map_cons, same, List.append_assoc]
    rfl

/-! ## One after the other -/

theorem ordered (h : Reads before rest ds) :
    (∀ d ∈ ds, Text.byteLength before ≤ d.token.span.start) ∧
      (ds.map fun d => d.token.span).Pairwise fun a b => a.start < a.stop ∧ a.stop ≤ b.start := by
  induction h with
  | ending => simp [Token.endAt, Span.over]
  | separator found more ih =>
    refine ⟨fun d mem => ?_, ih.2⟩
    have later := ih.1 d mem
    rw [Text.byteLength_append] at later
    exact Nat.le_of_add_right_le later
  | @token before text rest kind problem ds found more ih =>
    obtain ⟨behind, others⟩ := ih
    rw [Text.byteLength_append] at behind
    have positive := Text.byteLength_pos (cut_of_firstPiece? found).1
    refine ⟨List.forall_mem_cons.2 ⟨Nat.le_refl _, fun d mem => ?_⟩, List.pairwise_cons.2
      ⟨List.forall_mem_map.2 fun d mem => ⟨Nat.lt_add_of_pos_right positive, behind d mem⟩, others⟩⟩
    exact Nat.le_of_add_right_le (behind d mem)

/-- Behind a span that ends before `skipped`, all gaps are text that separates. -/
theorem apart (h : Reads before rest ds) {source early skipped : List Char} {last : Span}
    (whole : source = before ++ rest) (cut : before = early ++ skipped)
    (ends : last.stop = Text.byteLength early) (gap : Separates skipped rest) :
    (last :: ds.map fun d => d.token.span).IsChain (Span.Apart source) := by
  induction h generalizing early skipped last with
  | @ending before =>
    refine .cons_cons ⟨early, skipped, [], ?_, ends.symm, ?_, gap⟩ (.singleton _)
    · rw [whole, cut]
    · rw [← cut]
      rfl
  | @separator before text rest ds found more ih =>
    refine ih ?_ ?_ ends (gap.append (separates_of_firstPiece? found))
    · rw [whole, List.append_assoc]
    · rw [cut, List.append_assoc]
  | @token before text rest kind problem ds found more ih =>
    refine .cons_cons ⟨early, skipped, text ++ rest, ?_, ends.symm, ?_, gap⟩ ?_
    · rw [whole, cut]
    · rw [← cut]
      rfl
    · refine ih ?_ (List.append_nil _).symm ?_ .nil
      · rw [whole, List.append_assoc]
      · rw [Text.byteLength_append]
        rfl

/-! ## Reports -/

/-- Every unknown token is reported, and no other. -/
theorem complaint (h : Reads before rest ds) :
    ∀ d ∈ ds, if d.token.kind = .unknown then ∃ p, d.problem = some p ∧ d.token.Complaint p
      else d.problem = none := by
  induction h with
  | ending => exact fun d mem => by rw [List.mem_singleton.1 mem]; rfl
  | separator found more ih => exact ih
  | @token before text rest kind problem ds found more ih =>
    refine List.forall_mem_cons.2 ⟨?_, ih⟩
    rcases complaint_of_firstPiece? found with ⟨rfl, p, rfl, which⟩ | ⟨known, rfl⟩
    · refine if_pos rfl ▸ ⟨p, rfl, ?_⟩
      simpa [Token.Complaint] using which
    · exact if_neg known ▸ rfl

end Reads

namespace Delivery

variable {ds : List Delivery}

theorem complaints (each : ∀ d ∈ ds, if d.token.kind = .unknown then
      ∃ p, d.problem = some p ∧ d.token.Complaint p else d.problem = none) :
    List.Forall₂ (fun t x => ∃ p, t.Complaint p ∧ x = .of p t.span)
      ((ds.map Delivery.token).filter (·.kind = .unknown)) (ds.flatMap diagnostics) := by
  induction ds with
  | nil => exact .nil
  | cons d ds ih =>
    obtain ⟨here, others⟩ := List.forall_mem_cons.1 each
    rw [List.map_cons, List.flatMap_cons]
    split at here
    next unknown =>
      obtain ⟨p, found, complaint⟩ := here
      rw [List.filter_cons_of_pos (by simpa using unknown), diagnostics, found]
      exact .cons ⟨p, complaint, rfl⟩ (ih others)
    next known =>
      rw [List.filter_cons_of_neg (by simpa using known), diagnostics, here]
      exact ih others

end Delivery

/-- The deliveries of a text show all of it: the tokens and the gaps between them make up the text,
every token stands where its span says, and one that ends the input comes last. -/
theorem deliveries_lossless (source : List Char) : Lossless source (deliveries source) := by
  have reads := reads_deliveries source
  have pieces := reads.piece
  obtain ⟨front, tokens, others⟩ := reads.ending_last
  rw [List.nil_append] at tokens
  refine
    { ending := ⟨front, _, tokens, rfl, rfl, others⟩
      given := next_pulled_start source
      nonempty := fun d mem going empty => ?_
      stands := fun d mem => ?_
      ordered := reads.ordered.2
      apart := reads.apart rfl (List.nil_append []).symm rfl .nil
      complaints := fun s => ⟨(deliveries source).flatMap Delivery.diagnostics, ?_,
        Delivery.complaints reads.complaint⟩ }
  · obtain ⟨-, -, -, -, nonempty⟩ := pieces d mem
    refine nonempty going ?_
    rw [empty]
    rfl
  · obtain ⟨early, late, whole, span, -⟩ := pieces d mem
    rw [List.nil_append] at whole
    rw [whole]
    constructor
    · rw [span]
      exact Text.sliceBytes?_byteLength early _ late
    · refine ⟨early, d.token.text.toList ++ late, ?_, ?_, ?_⟩
      · rw [span, List.append_assoc]
        exact Text.splitAtByte?_byteLength early _
      · rw [span]
        rfl
      · rw [span]
        rfl
  · rw [Delivery.foldl_notify (lexed_deliveries source)]
    rfl

end MiniLang
