import BasicTokens.Proofs.Delivery.Reading
import BasicTokens.Proofs.Grammar.Refusal

/-!
# A text as lexemes and blanks

A tiling cuts a text into lexemes and the blanks around them. Between two lexemes there must be
blanks, unless the first of them is a string. Every text is a tiling followed by nothing or by
something refused, and in one way only (`exists_tiling`, `tiling_unique`); this is a fact about the
two grammars alone.

A listing follows the tiling (`lists_of_precedes`). So it is without an error exactly when the whole
text is tiled, and then it gives one token for each lexeme (`tokens_of_tiling`); and when it has an
error, that is the error of what follows the tiling (`tokens_of_refusal`).
-/

namespace BasicTokens

/-- A lexeme as it stands in a text, and the blanks behind it. -/
structure Piece where
  spelling : List Char
  lexeme : Lexeme
  gap : List Char

def Piece.text (p : Piece) : List Char :=
  p.spelling ++ p.gap

/-- Only a string may do without blanks behind it. -/
def Piece.IsSeparated (p : Piece) : Prop :=
  p.lexeme.isString = true ∨ p.gap ≠ []

def tokensFrom : Position → List Piece → List Token
  | _, [] => []
  | here, p :: pieces =>
    let behind := here.afterAll p.spelling
    ⟨p.lexeme, here, behind⟩ :: tokensFrom (behind.afterAll p.gap) pieces

/-- Blanks, and the pieces behind them. -/
structure Tiling where
  lead : List Char
  pieces : List Piece

namespace Tiling

def text (T : Tiling) : List Char :=
  T.lead ++ T.pieces.flatMap Piece.text

/-- The tokens of a tiling that a text begins with. -/
def tokens (T : Tiling) : List Token :=
  tokensFrom (Position.start.afterAll T.lead) T.pieces

/-- What makes a tiling right in front of `rest`. The last piece needs no blanks behind it only if
nothing follows. -/
structure Precedes (T : Tiling) (rest : List Char) : Prop where
  lead : ∀ c ∈ T.lead, isBlank c = true
  spells : ∀ p ∈ T.pieces, Spells p.spelling p.lexeme
  gaps : ∀ p ∈ T.pieces, ∀ c ∈ p.gap, isBlank c = true
  separated : ∀ p ∈ T.pieces.dropLast, p.IsSeparated
  parted : rest ≠ [] → ∀ p ∈ T.pieces, p.IsSeparated

/-- A tiling of a whole text. -/
structure Covers (T : Tiling) (text : List Char) : Prop where
  text_eq : T.text = text
  precedes : T.Precedes []

/-- A tiling of the beginning of a text, up to where the text is refused. -/
structure Breaks (T : Tiling) (text taken left : List Char) (e : LexicalError) : Prop where
  text_eq : T.text ++ (taken ++ left) = text
  precedes : T.Precedes (taken ++ left)
  refused : Refused (Position.start.afterAll T.text) taken left e

end Tiling

/-! ### What follows a tiling -/

/-- What a tiling may be followed by: nothing, or something refused. -/
def IsStop (here : Position) (rest : List Char) : Prop :=
  rest = [] ∨ ∃ taken left e, rest = taken ++ left ∧ Refused here taken left e

def IsBareHead (text : List Char) : Prop :=
  ∀ c, text.head? = some c → isBlank c = false

theorem IsStop.isBareHead {here : Position} {rest : List Char} (h : IsStop here rest) :
    IsBareHead rest := by
  intro c hc
  rcases h with rfl | ⟨taken, left, e, rfl, hrefused⟩
  · cases hc
  · obtain ⟨first, more, rfl, hfirst⟩ := hrefused.exists_head
    cases hc
    exact hfirst

theorem Spells.isBareHead {spelling : List Char} {x : Lexeme} (h : Spells spelling x)
    (rest : List Char) : IsBareHead (spelling ++ rest) := by
  intro c hc
  obtain ⟨first, more, rfl, hfirst⟩ := h.exists_head
  cases hc
  exact hfirst

namespace Tiling

variable {lead rest : List Char} {p : Piece} {pieces : List Piece}

theorem text_cons : (Tiling.mk lead (p :: pieces)).text
    = lead ++ (p.spelling ++ (Tiling.mk p.gap pieces).text) := by
  simp only [text, Piece.text, List.flatMap_cons, List.append_assoc]

theorem text_append : (Tiling.mk lead pieces).text ++ rest
    = lead ++ (pieces.flatMap Piece.text ++ rest) :=
  List.append_assoc _ _ _

theorem pieces_append : (p :: pieces).flatMap Piece.text ++ rest
    = p.spelling ++ ((Tiling.mk p.gap pieces).text ++ rest) := by
  simp only [text, Piece.text, List.flatMap_cons, List.append_assoc]

theorem isBareHead_pieces (h : (Tiling.mk lead pieces).Precedes rest) (hrest : IsBareHead rest) :
    IsBareHead (pieces.flatMap Piece.text ++ rest) := by
  cases pieces with
  | nil => exact hrest
  | cons p pieces =>
    rw [pieces_append]
    exact (h.spells p List.mem_cons_self).isBareHead _

theorem precedes_nil (h : ∀ c ∈ lead, isBlank c = true) : (Tiling.mk lead []).Precedes rest where
  lead := h
  spells q hq := by cases hq
  gaps q hq := by cases hq
  separated q hq := by cases hq
  parted _ q hq := by cases hq

theorem precedes_tail (h : (Tiling.mk lead (p :: pieces)).Precedes rest) :
    (Tiling.mk p.gap pieces).Precedes rest where
  lead := h.gaps p List.mem_cons_self
  spells q hq := h.spells q (List.mem_cons_of_mem _ hq)
  gaps q hq := h.gaps q (List.mem_cons_of_mem _ hq)
  separated q hq := by
    cases pieces with
    | nil => cases hq
    | cons r pieces => exact h.separated q (List.mem_cons_of_mem _ hq)
  parted hrest q hq := h.parted hrest q (List.mem_cons_of_mem _ hq)

theorem detached_head (h : (Tiling.mk lead (p :: pieces)).Precedes rest) :
    Detached p.lexeme ((Tiling.mk p.gap pieces).text ++ rest) := by
  by_cases hsep : p.IsSeparated
  · rcases hsep with hstring | hgap
    · exact .inl hstring
    · obtain ⟨c, gap, hc⟩ := List.exists_cons_of_ne_nil hgap
      refine .inr fun d hd => ?_
      rw [text, hc] at hd
      cases hd
      exact h.gaps p List.mem_cons_self c (by rw [hc]; exact List.mem_cons_self)
  · have hrest : rest = [] := by
      by_cases hrest : rest = []
      · exact hrest
      · exact absurd (h.parted hrest p List.mem_cons_self) hsep
    have hpieces : pieces = [] := by
      cases pieces with
      | nil => rfl
      | cons q pieces => exact absurd (h.separated p List.mem_cons_self) hsep
    have hgap : p.gap = [] := by
      by_cases hgap : p.gap = []
      · exact hgap
      · exact absurd (.inr hgap) hsep
    refine .inr fun d hd => ?_
    rw [text, hgap, hpieces, hrest] at hd
    cases hd

theorem precedes_cons {spelling : List Char} {x : Lexeme} {T : Tiling}
    (hlead : ∀ c ∈ lead, isBlank c = true) (hspells : Spells spelling x)
    (hdetached : Detached x (T.text ++ rest)) (h : T.Precedes rest) (hrest : IsBareHead rest) :
    (Tiling.mk lead (⟨spelling, x, T.lead⟩ :: T.pieces)).Precedes rest := by
  obtain ⟨gap, pieces⟩ := T
  have hfirst : (Piece.mk spelling x gap).IsSeparated ∨ pieces = [] ∧ rest = [] := by
    rcases hdetached with hstring | hbreak
    · exact .inl (.inl hstring)
    · cases gap with
      | cons c gap => exact .inl (.inr (List.cons_ne_nil _ _))
      | nil =>
        right
        have hbare := isBareHead_pieces h hrest
        cases htext : pieces.flatMap Piece.text ++ rest with
        | nil =>
          obtain ⟨hpieces, hnil⟩ := List.append_eq_nil_iff.1 htext
          refine ⟨?_, hnil⟩
          cases pieces with
          | nil => rfl
          | cons q pieces =>
            obtain ⟨c, more, hq, -⟩ := (h.spells q List.mem_cons_self).exists_head
            rw [List.flatMap_cons, Piece.text, hq] at hpieces
            cases hpieces
        | cons c more =>
          have hblank := hbreak c (by rw [text, List.nil_append, htext]; rfl)
          rw [hbare c (by rw [htext]; rfl)] at hblank
          cases hblank
  refine ⟨hlead, ?_, ?_, ?_, ?_⟩
  · intro q hq
    rcases List.mem_cons.1 hq with rfl | hq
    · exact hspells
    · exact h.spells q hq
  · intro q hq
    rcases List.mem_cons.1 hq with rfl | hq
    · exact h.lead
    · exact h.gaps q hq
  · intro q hq
    cases pieces with
    | nil => cases hq
    | cons r pieces =>
      rcases List.mem_cons.1 hq with rfl | hq
      · rcases hfirst with hsep | ⟨hnil, -⟩
        · exact hsep
        · cases hnil
      · exact h.separated q hq
  · intro hne q hq
    rcases List.mem_cons.1 hq with rfl | hq
    · rcases hfirst with hsep | ⟨-, hnil⟩
      · exact hsep
      · exact absurd hnil hne
    · exact h.parted hne q hq

end Tiling

/-! ### Tilings of a text -/

theorem exists_tiling (here : Position) (text : List Char) :
    ∃ (T : Tiling) (rest : List Char), text = T.text ++ rest ∧ T.Precedes rest
      ∧ IsStop (here.afterAll T.text) rest := by
  obtain ⟨n, hn⟩ : ∃ n, text.length = n := ⟨_, rfl⟩
  induction n using Nat.strongRecOn generalizing here text with
  | ind n ih =>
    obtain ⟨lead, ahead, rfl, hlead, hahead⟩ := exists_span isBlank text
    have htext : (Tiling.mk lead []).text = lead := List.append_nil _
    cases ahead with
    | nil => exact ⟨⟨lead, []⟩, [], by rw [htext], Tiling.precedes_nil hlead, .inl rfl⟩
    | cons first more =>
      rcases readOrRefused (hahead first rfl) (here.afterAll lead) more with
        ⟨spelling, x, rest, hmore, hspells, hdetached⟩ | ⟨taken, left, e, hmore, hrefused⟩
      · obtain ⟨c, spelled, hhead, -⟩ := hspells.exists_head
        have hlt : rest.length < n := by
          rw [← hn, hmore, hhead]
          simp only [List.length_append, List.length_cons]
          omega
        obtain ⟨T, stop, rfl, hT, hstop⟩ :=
          ih _ hlt ((here.afterAll lead).afterAll spelling) rest rfl
        refine ⟨⟨lead, ⟨spelling, x, T.lead⟩ :: T.pieces⟩, stop, ?_, ?_, ?_⟩
        · rw [Tiling.text_cons, hmore]
          simp only [List.append_assoc]
        · exact Tiling.precedes_cons hlead hspells hdetached hT hstop.isBareHead
        · rw [Tiling.text_cons, Position.afterAll_append, Position.afterAll_append]
          exact hstop
      · have hstop : IsStop (here.afterAll (Tiling.mk lead []).text) (first :: more) := by
          rw [htext]
          exact .inr ⟨taken, left, e, hmore, hrefused⟩
        exact ⟨⟨lead, []⟩, first :: more, by rw [htext], Tiling.precedes_nil hlead, hstop⟩

theorem takeWhile_blanks {gap rest : List Char} (hgap : ∀ c ∈ gap, isBlank c = true)
    (hrest : IsBareHead rest) : (gap ++ rest).takeWhile isBlank = gap := by
  rw [List.takeWhile_append_of_pos hgap]
  cases rest with
  | nil => rw [List.takeWhile_nil, List.append_nil]
  | cons c rest =>
    rw [List.takeWhile_cons_of_neg (by rw [hrest c rfl]; exact Bool.false_ne_true), List.append_nil]

/-- Blanks in front of what is no blank can be told from it. -/
theorem blanks_inj {gap gap' rest rest' : List Char} (hgap : ∀ c ∈ gap, isBlank c = true)
    (hgap' : ∀ c ∈ gap', isBlank c = true) (hrest : IsBareHead rest) (hrest' : IsBareHead rest')
    (h : gap ++ rest = gap' ++ rest') : gap = gap' ∧ rest = rest' := by
  obtain rfl : gap = gap' := by
    rw [← takeWhile_blanks hgap hrest, h, takeWhile_blanks hgap' hrest']
  exact ⟨rfl, List.append_cancel_left h⟩

theorem not_isStop_of_spells {here : Position} {spelling rest : List Char} {x : Lexeme}
    (hspells : Spells spelling x) (hdetached : Detached x rest) :
    ¬ IsStop here (spelling ++ rest) := by
  intro hstop
  rcases hstop with hnil | ⟨taken, left, e, htext, hrefused⟩
  · obtain ⟨first, more, rfl, -⟩ := hspells.exists_head
    cases hnil
  · have hread := answer_of_spells hspells hdetached here
    rw [htext, answer_of_refused hrefused] at hread
    cases hread

/-- **A text is tiled in one way only.** -/
theorem tiling_unique {T T' : Tiling} {here here' : Position} {rest rest' : List Char}
    (h : T.Precedes rest) (h' : T'.Precedes rest') (hstop : IsStop here rest)
    (hstop' : IsStop here' rest') (htext : T.text ++ rest = T'.text ++ rest') :
    T = T' ∧ rest = rest' := by
  obtain ⟨lead, pieces⟩ := T
  obtain ⟨lead', pieces'⟩ := T'
  induction pieces generalizing lead lead' pieces' with
  | nil =>
    rw [Tiling.text_append, Tiling.text_append] at htext
    obtain ⟨rfl, hahead⟩ := blanks_inj h.lead h'.lead (Tiling.isBareHead_pieces h hstop.isBareHead)
      (Tiling.isBareHead_pieces h' hstop'.isBareHead) htext
    cases pieces' with
    | nil => exact ⟨rfl, hahead⟩
    | cons p' pieces' =>
      rw [List.flatMap_nil, List.nil_append, Tiling.pieces_append] at hahead
      rw [hahead] at hstop
      exact absurd hstop (not_isStop_of_spells (h'.spells p' List.mem_cons_self)
        (Tiling.detached_head h'))
  | cons p pieces ih =>
    rw [Tiling.text_append, Tiling.text_append] at htext
    obtain ⟨rfl, hahead⟩ := blanks_inj h.lead h'.lead (Tiling.isBareHead_pieces h hstop.isBareHead)
      (Tiling.isBareHead_pieces h' hstop'.isBareHead) htext
    rw [Tiling.pieces_append] at hahead
    cases pieces' with
    | nil =>
      rw [List.flatMap_nil, List.nil_append] at hahead
      rw [← hahead] at hstop'
      exact absurd hstop' (not_isStop_of_spells (h.spells p List.mem_cons_self)
        (Tiling.detached_head h))
    | cons p' pieces' =>
      rw [Tiling.pieces_append] at hahead
      obtain ⟨hspelling, hlexeme, hrest⟩ := spells_unique (h.spells p List.mem_cons_self)
        (Tiling.detached_head h) (h'.spells p' List.mem_cons_self) (Tiling.detached_head h') hahead
      obtain ⟨htail, hends⟩ := ih _ (Tiling.precedes_tail h) _ _ (Tiling.precedes_tail h') hrest
      rw [Tiling.mk.injEq] at htail
      obtain ⟨hgap, rfl⟩ := htail
      obtain ⟨spelling, lexeme, gap⟩ := p
      obtain ⟨spelling', lexeme', gap'⟩ := p'
      subst hspelling hlexeme hgap
      exact ⟨rfl, hends⟩

/-! ### A listing follows the tiling -/

theorem Lists.blanks {ending : Ending} {here : Position} {gap text : List Char}
    {items : List (Except LexicalError Token)} {last : Position} {unread : List Char}
    (hgap : ∀ c ∈ gap, isBlank c = true)
    (h : Lists ending (here.afterAll gap) text items last unread) :
    Lists ending here (gap ++ text) items last unread :=
  h.congr (answer_blanks hgap ending here text)

theorem lists_of_precedes {lead rest : List Char} {pieces : List Piece}
    (h : (Tiling.mk lead pieces).Precedes rest) {here : Position}
    {items : List (Except LexicalError Token)} {last : Position} {unread : List Char}
    (hrest : Lists .quiet (here.afterAll (Tiling.mk lead pieces).text) rest items last unread) :
    Lists .quiet here ((Tiling.mk lead pieces).text ++ rest)
      ((tokensFrom (here.afterAll lead) pieces).map .ok ++ items) last unread := by
  induction pieces generalizing lead here with
  | nil =>
    have htext : (Tiling.mk lead []).text = lead := List.append_nil _
    rw [htext] at hrest ⊢
    exact hrest.blanks h.lead
  | cons p pieces ih =>
    rw [Tiling.text_cons, Position.afterAll_append, Position.afterAll_append] at hrest
    have htail := ih (Tiling.precedes_tail h) hrest
    have hhead := answer_of_spells (h.spells p List.mem_cons_self) (Tiling.detached_head h)
      (here.afterAll lead)
    rw [Tiling.text_cons, List.append_assoc, List.append_assoc]
    exact (Lists.token hhead htail).blanks h.lead

theorem lists_of_covers {T : Tiling} {text : List Char} (h : T.Covers text) :
    Lists .quiet .start text (T.tokens.map .ok) (Position.start.afterAll text) [] := by
  have hstop : Lists .quiet (Position.start.afterAll T.text) [] []
      (Position.start.afterAll T.text) [] := .stop (answer_nil _ _) rfl
  have hlist := lists_of_precedes h.precedes hstop
  rw [List.append_nil, List.append_nil] at hlist
  rw [← h.text_eq]
  exact hlist

theorem lists_of_breaks {T : Tiling} {text taken left : List Char} {e : LexicalError}
    (h : T.Breaks text taken left e) :
    Lists .quiet .start text (T.tokens.map .ok ++ [.error e])
      (Position.start.afterAll (T.text ++ taken)) left := by
  have hfail : Lists .quiet (Position.start.afterAll T.text) (taken ++ left) [.error e]
      ((Position.start.afterAll T.text).afterAll taken) left :=
    .fail (answer_of_refused h.refused) h.refused.isEndOfInput_eq_false
  rw [← h.text_eq, Position.afterAll_append]
  exact lists_of_precedes h.precedes hfail

theorem covers_or_breaks (text : List Char) :
    (∃ T : Tiling, T.Covers text)
      ∨ ∃ (T : Tiling) (taken left : List Char) (e : LexicalError), T.Breaks text taken left e := by
  obtain ⟨T, rest, htext, hT, hstop⟩ := exists_tiling .start text
  rcases hstop with rfl | ⟨taken, left, e, rfl, hrefused⟩
  · rw [List.append_nil] at htext
    exact .inl ⟨T, htext.symm, hT⟩
  · exact .inr ⟨T, taken, left, e, htext.symm, hT, hrefused⟩

theorem length_tokensFrom (here : Position) (pieces : List Piece) :
    (tokensFrom here pieces).length = pieces.length := by
  induction pieces generalizing here with
  | nil => rfl
  | cons p pieces ih => rw [tokensFrom, List.length_cons, List.length_cons, ih]

/-- **A listing is exact.** It is without an error if and only if the text is tiled, and then the
tokens are those of the tiling, which is the only one. -/
theorem tokens_of_tiling (bytes : List UInt8) :
    ((∀ item ∈ (Cursor.ofSource bytes).tokens.1, ∃ t, item = .ok t)
      ↔ ∃ T : Tiling, T.Covers (textOf bytes)) ∧
    (∀ T : Tiling, T.Covers (textOf bytes) →
      (Cursor.ofSource bytes).tokens.1 = T.tokens.map .ok
        ∧ (Cursor.ofSource bytes).tokens.1.length = T.pieces.length
        ∧ (Cursor.ofSource bytes).tokens.2.position = Position.start.afterAll (textOf bytes)) ∧
    ∀ T T' : Tiling, T.Covers (textOf bytes) → T'.Covers (textOf bytes) → T = T' := by
  refine ⟨⟨?_, ?_⟩, ?_, ?_⟩
  · intro hok
    rcases covers_or_breaks (textOf bytes) with hcovers | ⟨T, taken, left, e, hbreaks⟩
    · exact hcovers
    · have hitems := (Cursor.tokens_of_lists (lists_of_breaks hbreaks)).1
      obtain ⟨t, ht⟩ := hok (.error e) (by rw [hitems]; simp)
      cases ht
  · intro hcovers item hitem
    obtain ⟨T, hT⟩ := hcovers
    rw [(Cursor.tokens_of_lists (lists_of_covers hT)).1] at hitem
    obtain ⟨t, -, rfl⟩ := List.mem_map.1 hitem
    exact ⟨t, rfl⟩
  · intro T hT
    obtain ⟨hitems, hlast, -⟩ := Cursor.tokens_of_lists (lists_of_covers hT)
    refine ⟨hitems, ?_, hlast⟩
    rw [hitems, List.length_map]
    exact length_tokensFrom _ _
  · intro T T' hT hT'
    have htext : T.text ++ [] = T'.text ++ [] := by rw [hT.text_eq, hT'.text_eq]
    have hstop : IsStop .start [] := .inl rfl
    exact (tiling_unique hT.precedes hT'.precedes hstop hstop htext).1

/-- **A listing stops where the text is refused.** It has an error if and only if a tiling breaks
off, and then it gives the tokens of the tiling and the one error of what follows, has taken what
that error takes and leaves the rest unread. -/
theorem tokens_of_refusal (bytes : List UInt8) :
    ((∃ e, .error e ∈ (Cursor.ofSource bytes).tokens.1)
      ↔ ∃ (T : Tiling) (taken left : List Char) (e : LexicalError),
        T.Breaks (textOf bytes) taken left e) ∧
    (∀ (T : Tiling) (taken left : List Char) (e : LexicalError),
      T.Breaks (textOf bytes) taken left e →
      (Cursor.ofSource bytes).tokens.1 = T.tokens.map .ok ++ [.error e]
        ∧ (Cursor.ofSource bytes).tokens.2.position = Position.start.afterAll (T.text ++ taken)
        ∧ textOf (Cursor.ofSource bytes).tokens.2.unread = left) ∧
    ∀ (T T' : Tiling) (taken taken' left left' : List Char) (e e' : LexicalError),
      T.Breaks (textOf bytes) taken left e → T'.Breaks (textOf bytes) taken' left' e' →
      T = T' ∧ taken = taken' ∧ left = left' ∧ e = e' := by
  refine ⟨⟨?_, ?_⟩, ?_, ?_⟩
  · intro herror
    obtain ⟨e, he⟩ := herror
    rcases covers_or_breaks (textOf bytes) with ⟨T, hT⟩ | hbreaks
    · rw [(Cursor.tokens_of_lists (lists_of_covers hT)).1] at he
      obtain ⟨t, -, ht⟩ := List.mem_map.1 he
      cases ht
    · exact hbreaks
  · intro hbreaks
    obtain ⟨T, taken, left, e, h⟩ := hbreaks
    refine ⟨e, ?_⟩
    rw [(Cursor.tokens_of_lists (lists_of_breaks h)).1]
    simp
  · intro T taken left e h
    exact Cursor.tokens_of_lists (lists_of_breaks h)
  · intro T T' taken taken' left left' e e' h h'
    have htext : T.text ++ (taken ++ left) = T'.text ++ (taken' ++ left') := by
      rw [h.text_eq, h'.text_eq]
    obtain ⟨rfl, hrest⟩ := tiling_unique h.precedes h'.precedes
      (.inr ⟨taken, left, e, rfl, h.refused⟩) (.inr ⟨taken', left', e', rfl, h'.refused⟩) htext
    exact ⟨rfl, h.refused.unique h'.refused hrest⟩

end BasicTokens
