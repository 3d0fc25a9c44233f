import MiniLang.Proofs.Token.MaximalMunch

/-!
# Tokens of a part of a text

A piece that a text is cut into is the first piece of a shorter text too, as long as the text is cut
off behind it (`firstPiece?_of_longer`). So what stands from the first through the last of some
tokens of a text, read by itself, has just these tokens (`Span.Reaches.shows`).
-/

set_option autoImplicit false

namespace MiniLang

namespace LexemeClass

variable {text inside after : List Char} {cls : LexemeClass}

/-- A lexeme is the lexeme of a shorter text that begins with it. -/
theorem take?_of_longer (found : cls.take? (text ++ (inside ++ after)) = some text) :
    cls.take? (text ++ inside) = some text := by
  obtain ⟨lexeme, same, begins⟩ :=
    take?_of_contains (List.prefix_append text inside) (contains_of_take? found)
  have whole : lexeme <+: text ++ (inside ++ after) := by
    rw [← List.append_assoc]
    exact (prefix_of_take? same).trans (List.prefix_append ..)
  have short := (munch_of_take? found).longest cls (List.mem_singleton_self cls) lexeme whole
    (contains_of_take? same)
  rw [same, begins.eq_of_length_le short]

/-- A class that has no lexeme at the beginning of a text has none in a shorter one. -/
theorem take?_eq_none_of_longer {cs : List Char} (none : cls.take? (cs ++ after) = none) :
    cls.take? cs = .none :=
  take?_eq_none_iff.2 fun text begins =>
    take?_eq_none_iff.1 none text (begins.trans (List.prefix_append ..))

theorem firstMatch?_of_longer {classes : List LexemeClass}
    (found : firstMatch? (text ++ (inside ++ after)) classes = some (cls, text)) :
    firstMatch? (text ++ inside) classes = some (cls, text) := by
  induction classes with
  | nil => cases found
  | cons first classes ih =>
    rw [firstMatch?] at found ⊢
    cases here : first.take? (text ++ (inside ++ after)) with
    | some lexeme =>
      rw [here] at found
      cases found
      rw [take?_of_longer here]
    | none =>
      rw [here] at found
      rw [← List.append_assoc] at here
      rw [take?_eq_none_of_longer here]
      exact ih found

theorem firstMatch?_eq_none_of_longer {classes : List LexemeClass} {cs : List Char}
    (none : firstMatch? (cs ++ after) classes = none) : firstMatch? cs classes = .none := by
  induction classes with
  | nil => rfl
  | cons first classes ih =>
    have all := take?_eq_none_of_firstMatch? none
    have others : firstMatch? (cs ++ after) classes = .none := by
      rwa [firstMatch?, all first List.mem_cons_self] at none
    rw [firstMatch?, take?_eq_none_of_longer (all first List.mem_cons_self)]
    exact ih others

end LexemeClass

open LexemeClass

/-- The first piece of a text does not depend on what comes behind it. -/
theorem firstPiece?_of_longer {text inside after : List Char}
    {becomes : Option (TokenKind × Option Problem)}
    (found : firstPiece? (text ++ (inside ++ after)) = some (text, becomes)) :
    firstPiece? (text ++ inside) = some (text, becomes) := by
  rcases firstPiece?_eq_some found with ⟨cls, first, rfl⟩ | ⟨c, rest, rfl, -, none, rfl⟩
  · exact firstPiece?_of_firstMatch? (firstMatch?_of_longer first)
  · rw [← List.append_assoc] at none
    have nothing : firstMatch? ([c] ++ inside) table = .none := firstMatch?_eq_none_of_longer none
    rw [List.singleton_append] at nothing ⊢
    simp only [firstPiece?, nothing]

namespace Reads

variable {before rest : List Char} {d : Delivery} {ds : List Delivery}

/-- A token is the next piece of what is left when all before it is read. -/
theorem onward {front : List Delivery} (h : Reads before rest (front ++ d :: ds))
    (more : d.token.kind ≠ .endOfInput) :
    ∃ skipped text left, rest = skipped ++ (text ++ left) ∧
      d.token.span = .over (before ++ skipped) text ∧
      Reads (before ++ skipped) (text ++ left) (d :: ds) := by
  generalize all : front ++ d :: ds = given at h
  induction h generalizing front with
  | @ending before =>
    obtain ⟨-, same⟩ := List.append_eq_singleton_iff.1 all |>.resolve_right (by simp)
    cases same
    exact absurd rfl more
  | @separator before text rest given found reads ih =>
    obtain ⟨skipped, piece, left, rfl, place, reads⟩ := ih all
    rw [List.append_assoc] at place reads
    exact ⟨text ++ skipped, piece, left, by rw [List.append_assoc], place, reads⟩
  | @token before text rest kind problem given found reads ih =>
    cases front with
    | nil =>
      cases all
      refine ⟨[], text, rest, rfl, ?_, ?_⟩
      · rw [List.append_nil]
      · rw [List.append_nil]
        exact .token found reads
    | cons first front =>
      obtain ⟨skipped, piece, left, rfl, place, reads⟩ := ih (List.cons.inj all).2
      rw [List.append_assoc] at place reads
      exact ⟨text ++ skipped, piece, left, by rw [List.append_assoc], place, reads⟩

/-- A text that is cut off behind one of its tokens has the tokens up to this one, wherever it
stands. -/
theorem upTo {front : List Delivery} (h : Reads before rest (front ++ d :: ds))
    (going : ∀ x ∈ front ++ [d], x.token.kind ≠ .endOfInput) :
    ∃ inside after, rest = inside ++ after ∧
      d.token.span.stop = Text.byteLength (before ++ inside) ∧
      ∀ early, ∃ xs, Reads early inside xs ∧
        terminals (xs.map Delivery.token) = (front ++ [d]).map fun x => x.token.terminal := by
  generalize all : front ++ d :: ds = given at h
  induction h generalizing front with
  | @ending before =>
    obtain ⟨rfl, same⟩ := List.append_eq_singleton_iff.1 all |>.resolve_right (by simp)
    cases same
    exact absurd rfl (going _ List.mem_cons_self)
  | @separator before text rest given found reads ih =>
    obtain ⟨inside, after, rfl, stop, reads⟩ := ih going all
    rw [List.append_assoc] at stop
    refine ⟨text ++ inside, after, by rw [List.append_assoc], stop, fun early => ?_⟩
    obtain ⟨xs, inner, same⟩ := reads (early ++ text)
    exact ⟨xs, .separator (firstPiece?_of_longer found) inner, same⟩
  | @token before text rest kind problem given found reads ih =>
    cases front with
    | nil =>
      cases all
      refine ⟨text, rest, rfl, ?_, fun early => ?_⟩
      · rw [Text.byteLength_append]
        rfl
      · have alone : firstPiece? (text ++ []) = some (text, some (kind, problem)) :=
          firstPiece?_of_longer found
        have nothing : Reads (early ++ text) [] _ := .ending
        have inner := Reads.token alone nothing
        rw [List.append_nil] at inner
        refine ⟨_, inner, ?_⟩
        rw [List.map_cons, terminals_cons (ne_endOfInput_of_firstPiece? found)]
        rfl
    | cons first front =>
      obtain ⟨rfl, others⟩ := List.cons.inj all
      obtain ⟨inside, after, rfl, stop, reads⟩ :=
        ih (fun x mem => going x (List.mem_cons_of_mem _ mem)) others
      rw [List.append_assoc] at stop
      refine ⟨text ++ inside, after, by rw [List.append_assoc], stop, fun early => ?_⟩
      obtain ⟨xs, inner, same⟩ := reads (early ++ text)
      refine ⟨_, .token (firstPiece?_of_longer found) inner, ?_⟩
      rw [List.map_cons, terminals_cons (ne_endOfInput_of_firstPiece? found), same]
      rfl

end Reads

/-! ## Tokens and the text between them -/

/-- The tokens of a text, without the one that ends the input. -/
def tokensOf (source : List Char) : List Token :=
  ((deliveries source).map Delivery.token).takeWhile (·.kind ≠ .endOfInput)

/-- A span reaches from the first of the tokens through the last. -/
structure Span.Reaches (span : Span) (run : List Token) : Prop where
  start : ∃ t ∈ run.head?, span.start = t.span.start ∧ span.line = t.span.line ∧
    span.column = t.span.column
  stop : ∃ t ∈ run.getLast?, span.stop = t.span.stop

/-- A span of a text shows some tokens: it reaches from the first through the last of them, and the
text that stands there, read by itself, has just these tokens. -/
structure Span.Shows (source : List Char) (span : Span) (run : List Token) (text : List Char) :
    Prop where
  reaches : span.Reaches run
  slice : Text.sliceBytes? source span.start span.stop = some text
  read : terminals ((deliveries text).map Delivery.token) = run.map Token.terminal

/-- Tokens that stand in their order: none ends before one that comes earlier. -/
def Token.InOrder (run : List Token) : Prop := run.Pairwise fun t u => t.span.stop ≤ u.span.stop

namespace Span.Reaches

variable {a b : Span} {run run' : List Token}

theorem single (t : Token) : t.span.Reaches [t] :=
  ⟨⟨t, rfl, rfl, rfl, rfl⟩, t, rfl, rfl⟩

theorem ne_nil (h : a.Reaches run) : run ≠ [] := by
  rintro rfl
  obtain ⟨_, ⟨⟩, -⟩ := h.stop

/-- What two spans enclose reaches from where the first does through where the second does. -/
theorem join (h : a.Reaches run) (h' : b.Reaches run') (mid : List Token)
    (ordered : Token.InOrder (run ++ (mid ++ run'))) :
    (a.join b).Reaches (run ++ (mid ++ run')) := by
  obtain ⟨⟨t, isFirst, start⟩, u, isLast, stop⟩ := h
  obtain ⟨-, v, isLast', stop'⟩ := h'
  refine ⟨⟨t, ?_, start⟩, v, ?_, ?_⟩
  · rw [List.head?_append, isFirst]
    rfl
  · rw [List.getLast?_append, List.getLast?_append, isLast']
    rfl
  · have le := (List.pairwise_append.1 ordered).2.2 u (List.mem_of_getLast? isLast) v
      (List.mem_append_right _ (List.mem_of_getLast? isLast'))
    rw [Span.join, stop', stop]
    exact Nat.max_eq_left le

/-- What the first and the last of some tokens enclose. -/
theorem ends {first last : Token} (mid : List Token)
    (ordered : Token.InOrder (first :: (mid ++ [last]))) :
    (first.span.join last.span).Reaches (first :: (mid ++ [last])) :=
  (single first).join (single last) mid ordered

end Span.Reaches

/-- The tokens of a text stand in their order. -/
theorem inOrder_tokensOf (source : List Char) : Token.InOrder (tokensOf source) := by
  have reads := reads_deliveries source
  have ordered := reads.ordered.2
  rw [List.pairwise_map] at ordered
  have stops : ((deliveries source).map Delivery.token).Pairwise fun t u =>
      t.span.stop ≤ u.span.stop := by
    refine List.pairwise_map.2 (ordered.imp_of_mem fun {d e} _ mem between => between.2.trans ?_)
    obtain ⟨early, _, -, place, -⟩ := reads.piece e mem
    rw [place]
    exact Nat.le_add_right ..
  exact stops.sublist (List.takeWhile_sublist _)

/-- A span that reaches from the first through the last of some tokens of a text shows them. -/
theorem Span.Reaches.shows {span : Span} {run : List Token} {source : List Char}
    (h : span.Reaches run) (part : run <:+: tokensOf source) :
    ∃ text, span.Shows source run text := by
  have going : ∀ t ∈ run, t.kind ≠ .endOfInput := fun t mem => by
    simpa using List.all_eq_true.1 List.all_takeWhile t (part.subset mem)
  obtain ⟨before, behind, split⟩ := part
  have whole : (deliveries source).map Delivery.token = before ++ (run ++ (behind ++
      ((deliveries source).map Delivery.token).dropWhile (·.kind ≠ .endOfInput))) := by
    rw [← List.append_assoc run, ← List.append_assoc before, ← List.append_assoc before, split]
    exact List.takeWhile_append_dropWhile.symm
  obtain ⟨ds, es, cut, -, same⟩ := List.map_eq_append_iff.1 whole
  obtain ⟨xs, ys, rfl, rfl, -⟩ := List.map_eq_append_iff.1 same
  have reaches := h
  obtain ⟨⟨t, isFirst, start, -⟩, u, isLast, stop⟩ := h
  rw [List.head?_map] at isFirst
  rw [List.getLast?_map] at isLast
  obtain ⟨first, head, rfl⟩ := Option.map_eq_some_iff.1 isFirst
  obtain ⟨last, back, rfl⟩ := Option.map_eq_some_iff.1 isLast
  obtain ⟨others, rfl⟩ := List.head?_eq_some_iff.1 head
  obtain ⟨front, ends⟩ := List.getLast?_eq_some_iff.1 back
  have reads := reads_deliveries source
  rw [cut, List.cons_append] at reads
  obtain ⟨skipped, text, left, rfl, place, reads⟩ := reads.onward (going _ List.mem_cons_self)
  rw [← List.cons_append, ends, List.append_assoc, List.singleton_append] at reads
  obtain ⟨inside, after, beyond, place', alone⟩ := reads.upTo fun x mem =>
    going _ (List.mem_map_of_mem (ends ▸ mem))
  obtain ⟨zs, inner, terminals⟩ := alone []
  refine ⟨inside, reaches, ?_, ?_⟩
  · rw [start, stop, place, place', beyond, ← List.append_assoc, List.nil_append,
      Text.byteLength_append]
    exact Text.sliceBytes?_byteLength ..
  · rw [← inner.eq_deliveries, terminals, ends, List.map_map]
    rfl

end MiniLang
