import BasicTokens.Proofs.Cursor.Diary
import BasicTokens.Proofs.Cursor.End
import BasicTokens.Proofs.Delivery.File

/-!
# Listings and calls

A listing is calls one after the other, up to the first error. It differs from them in two ways: it
makes no call where there is no more, and behind an error it makes none at all. Neither shows. Where
there is no more a call would only note the end, so the cursor is left as the call would leave it,
but for the diary (`Alike`); and whoever goes on behind an error begins a new listing.

All of this is stated in terms of what calls return under limits that are high enough (`Calls`), so
a listing comes to an end exactly where the calls do.
-/

namespace BasicTokens

namespace Cursor

variable {σ : Type} [Source σ] {c d e : Cursor σ} {result : Except LexicalError Token}
  {results more : List (Except LexicalError Token)}

/-- A call returns with this result and leaves this cursor, under a limit that is high enough. -/
def Returns (c : Cursor σ) (result : Except LexicalError Token) (d : Cursor σ) : Prop :=
  ∃ limit, c.token? limit = some (result, d)

/-- Calls one after the other, past errors, return with these results. -/
inductive Calls : Cursor σ → List (Except LexicalError Token) → Cursor σ → Prop
  | nil (c : Cursor σ) : Calls c [] c
  | cons {c d e : Cursor σ} {result : Except LexicalError Token}
      {results : List (Except LexicalError Token)} : c.Returns result d → Calls d results e →
      Calls c (result :: results) e

theorem returns_of_hasMore_eq_false (h : c.hasMore = false) :
    c.Returns (.error (.endOfInput c.position)) (c.note (.endOfInput c.position)) :=
  ⟨1, token?_of_hasMore_eq_false h 0⟩

theorem Returns.unique {result' : Except LexicalError Token} (h : c.Returns result d)
    (h' : c.Returns result' e) : result = result' ∧ d = e := by
  obtain ⟨limit, htoken⟩ := h
  obtain ⟨limit', htoken'⟩ := h'
  have hboth := token?_mono (Nat.le_max_left limit limit') htoken
  rw [token?_mono (Nat.le_max_right limit limit') htoken', Option.some.injEq,
    Prod.mk.injEq] at hboth
  exact ⟨hboth.1.symm, hboth.2.symm⟩

theorem hasMore_of_returns_ok {t : Token} (h : c.Returns (.ok t) d) : c.hasMore = true := by
  rw [← Bool.not_eq_false]
  intro hmore
  cases (h.unique (returns_of_hasMore_eq_false hmore)).1

theorem Calls.append (h : c.Calls results d) (h' : d.Calls more e) :
    c.Calls (results ++ more) e := by
  induction h with
  | nil => exact h'
  | cons hreturns _ ih => exact .cons hreturns (ih h')

theorem exists_calls_append (h : c.Calls (results ++ more) e) :
    ∃ d, c.Calls results d ∧ d.Calls more e := by
  induction results generalizing c with
  | nil => exact ⟨c, .nil c, h⟩
  | cons result results ih =>
    cases h with
    | cons hreturns hrest =>
      obtain ⟨d, hresults, hmore⟩ := ih hrest
      exact ⟨d, .cons hreturns hresults, hmore⟩

theorem exists_calls_of_alike {c' : Cursor σ} (h : c.Calls results d) (halike : c.Alike c') :
    ∃ d', c'.Calls results d' ∧ d.Alike d' := by
  induction h generalizing c' with
  | nil => exact ⟨c', .nil c', halike⟩
  | cons hreturns _ ih =>
    obtain ⟨limit, htoken⟩ := hreturns
    obtain ⟨k, htoken', hk⟩ := exists_token?_of_alike halike htoken
    obtain ⟨d', hcalls, hd⟩ := ih hk
    exact ⟨d', .cons ⟨limit, htoken'⟩ hcalls, hd⟩

end Cursor

/-! ### One listing -/

namespace Listing

variable {σ : Type} [Source σ] {l m : Listing σ} {items : List (Except LexicalError Token)}

inductive Gives : Listing σ → List (Except LexicalError Token) → Listing σ → Prop
  | nil (l : Listing σ) : Gives l [] l
  | cons {l k m : Listing σ} {item : Except LexicalError Token}
      {items : List (Except LexicalError Token)} {limit : Nat} :
      l.poll? limit = some (some item, k) → Gives k items m → Gives l (item :: items) m

/-- Polled until there is none, the listing gives these items. -/
def Collects (l : Listing σ) (items : List (Except LexicalError Token)) (m : Listing σ) : Prop :=
  ∃ limit polls, l.collect? limit polls = some (items, m)

theorem collects_of_none {limit : Nat} (hpoll : l.poll? limit = some (none, m)) :
    l.Collects [] m :=
  ⟨limit, 1, collect?_of_none hpoll 0⟩

theorem Collects.cons {k : Listing σ} {limit : Nat} {item : Except LexicalError Token}
    (hpoll : l.poll? limit = some (some item, k)) (h : k.Collects items m) :
    l.Collects (item :: items) m := by
  obtain ⟨limit', polls, hcollect⟩ := h
  have hpoll' := poll?_mono (Nat.le_max_left limit limit') hpoll
  have hcollect' := collect?_mono (Nat.le_max_right limit limit') (Nat.le_refl polls) hcollect
  exact ⟨max limit limit', polls + 1, collect?_of_some hpoll' hcollect'⟩

theorem Collects.unique {items' : List (Except LexicalError Token)} {m' : Listing σ}
    (h : l.Collects items m) (h' : l.Collects items' m') : items = items' ∧ m = m' := by
  obtain ⟨limit, polls, hcollect⟩ := h
  obtain ⟨limit', polls', hcollect'⟩ := h'
  have hboth := collect?_mono (Nat.le_max_left limit limit') (Nat.le_max_left polls polls') hcollect
  rw [collect?_mono (Nat.le_max_right limit limit') (Nat.le_max_right polls polls') hcollect',
    Option.some.injEq, Prod.mk.injEq] at hboth
  exact ⟨hboth.1.symm, hboth.2.symm⟩

theorem exists_poll?_of_collects (h : l.Collects items m) :
    (∃ limit, items = [] ∧ l.poll? limit = some (none, m)) ∨
      ∃ limit item rest k, items = item :: rest ∧ l.poll? limit = some (some item, k) ∧
        k.Collects rest m := by
  obtain ⟨limit, polls, hcollect⟩ := h
  cases polls with
  | zero => cases hcollect
  | succ polls =>
    rw [collect?] at hcollect
    split at hcollect
    · cases hcollect
    · rename_i hpoll
      cases hcollect
      exact .inl ⟨limit, rfl, hpoll⟩
    · rename_i item k hpoll
      obtain ⟨⟨rest, _⟩, hrest, hanswer⟩ := Option.map_eq_some_iff.1 hcollect
      cases hanswer
      exact .inr ⟨limit, item, rest, k, rfl, hpoll, limit, polls, hrest⟩

theorem collects_of_failed {c : Cursor σ} (h : (Listing.mk c true).Collects items m) :
    items = [] ∧ m = ⟨c, true⟩ :=
  h.unique (collects_of_none (poll?_of_failed c 0))

theorem collects_of_hasMore_eq_false {c : Cursor σ} (h : c.hasMore = false) :
    (Listing.mk c false).Collects [] ⟨c, false⟩ :=
  collects_of_none (poll?_of_hasMore_eq_false (l := ⟨c, false⟩) h 0)

theorem poll?_of_gives_error {e : LexicalError} (h : l.Gives (items ++ [.error e]) m)
    (limit : Nat) : m.poll? limit = some (none, m) := by
  induction items generalizing l with
  | nil =>
    cases h with
    | cons hpoll hrest =>
      cases hrest
      cases polled_of_poll? hpoll with
      | failed => exact poll?_of_failed _ limit
  | cons item items ih =>
    cases h with
    | cons _ hrest => exact ih hrest

end Listing

/-- What a listing shows of the error that it ends with: of the end of the input, nothing. -/
def shown (e : LexicalError) : List (Except LexicalError Token) :=
  if e.isEndOfInput then [] else [.error e]

theorem shown_endOfInput (p : Position) : shown (.endOfInput p) = [] := rfl

theorem shown_of_isEndOfInput_eq_false {e : LexicalError} (h : e.isEndOfInput = false) :
    shown e = [.error e] := by
  simp [shown, h]

theorem exists_endOfInput_of_shown {e : LexicalError} (h : shown e = []) :
    ∃ p, e = .endOfInput p := by
  apply LexicalError.exists_endOfInput
  rw [← Bool.not_eq_false]
  intro hend
  rw [shown_of_isEndOfInput_eq_false hend] at h
  cases h

namespace Cursor

variable {σ : Type} [Source σ] {c d : Cursor σ} {items : List (Except LexicalError Token)}
  {m : Listing σ}

theorem exists_poll?_of_returns_ok {t : Token} (h : c.Returns (.ok t) d) :
    ∃ limit, (Listing.mk c false).poll? limit = some (some (.ok t), ⟨d, false⟩) := by
  have hmore := hasMore_of_returns_ok h
  obtain ⟨limit, htoken⟩ := h
  refine ⟨limit, ?_⟩
  rw [Listing.poll?_of_hasMore hmore, htoken]
  rfl

theorem exists_collects_of_returns_error {e : LexicalError} (h : c.Returns (.error e) d) :
    ∃ m, (Listing.mk c false).Collects (shown e) m ∧ m.cursor.Alike d := by
  cases hmore : c.hasMore with
  | false =>
    obtain ⟨hresult, rfl⟩ := h.unique (returns_of_hasMore_eq_false hmore)
    cases hresult
    exact ⟨⟨c, false⟩, Listing.collects_of_hasMore_eq_false hmore, alike_note c _⟩
  | true =>
    obtain ⟨limit, htoken⟩ := h
    have hpoll := Listing.poll?_of_hasMore hmore limit
    rw [htoken, Option.map_some, Listing.take] at hpoll
    rw [shown]
    split
    · rename_i hend
      rw [if_pos hend] at hpoll
      exact ⟨⟨d, false⟩, Listing.collects_of_none hpoll, .refl d⟩
    · rename_i hend
      rw [if_neg hend] at hpoll
      have hstop := Listing.collects_of_none (Listing.poll?_of_failed d 0)
      exact ⟨⟨d, true⟩, .cons hpoll hstop, .refl d⟩

theorem exists_collects_of_calls {ts : List Token} {e : LexicalError}
    (h : c.Calls (ts.map .ok ++ [.error e]) d) :
    ∃ m, (Listing.mk c false).Collects (ts.map .ok ++ shown e) m ∧ m.cursor.Alike d := by
  induction ts generalizing c with
  | nil =>
    cases h with
    | cons hreturns hrest =>
      cases hrest
      exact exists_collects_of_returns_error hreturns
  | cons t ts ih =>
    cases h with
    | cons hreturns hrest =>
      obtain ⟨limit, hpoll⟩ := exists_poll?_of_returns_ok hreturns
      obtain ⟨m, hcollects, hm⟩ := ih hrest
      exact ⟨m, .cons hpoll hcollects, hm⟩

theorem exists_calls_of_collects (h : (Listing.mk c false).Collects items m) :
    ∃ (ts : List Token) (e : LexicalError) (d : Cursor σ),
      c.Calls (ts.map .ok ++ [.error e]) d ∧ items = ts.map .ok ++ shown e ∧ m.cursor.Alike d := by
  induction items generalizing c with
  | nil =>
    rcases Listing.exists_poll?_of_collects h with ⟨limit, -, hpoll⟩ | ⟨_, _, _, _, hitems, -⟩
    · cases Listing.polled_of_poll? hpoll with
      | unasked hend =>
        have hmore : c.hasMore = false := by simpa using hend
        exact ⟨[], _, _, .cons (returns_of_hasMore_eq_false hmore) (.nil _), rfl, alike_note c _⟩
      | ended _ htoken => exact ⟨[], _, _, .cons ⟨limit, htoken⟩ (.nil _), rfl, .refl _⟩
    · cases hitems
  | cons item items ih =>
    rcases Listing.exists_poll?_of_collects h with
      ⟨_, hitems, -⟩ | ⟨limit, _, _, _, hitems, hpoll, hrest⟩
    · cases hitems
    · cases hitems
      cases Listing.polled_of_poll? hpoll with
      | failed _ htoken hend =>
        obtain ⟨rfl, rfl⟩ := Listing.collects_of_failed hrest
        refine ⟨[], _, _, .cons ⟨limit, htoken⟩ (.nil _), ?_, .refl _⟩
        rw [shown_of_isEndOfInput_eq_false hend]
        rfl
      | token _ htoken =>
        obtain ⟨ts, e, d, hcalls, rfl, hd⟩ := ih hrest
        exact ⟨_ :: ts, e, d, .cons ⟨limit, htoken⟩ hcalls, rfl, hd⟩

theorem gives_iff {ts : List Token} :
    (Listing.mk c false).Gives (ts.map .ok) m ↔ ∃ d, c.Calls (ts.map .ok) d ∧ m = ⟨d, false⟩ := by
  induction ts generalizing c with
  | nil =>
    constructor
    · intro h
      cases h
      exact ⟨c, .nil c, rfl⟩
    · rintro ⟨d, h, rfl⟩
      cases h
      exact .nil _
  | cons t ts ih =>
    constructor
    · intro h
      cases h with
      | cons hpoll hrest =>
        cases Listing.polled_of_poll? hpoll with
        | token _ htoken =>
          obtain ⟨d, hcalls, hm⟩ := ih.1 hrest
          exact ⟨d, .cons ⟨_, htoken⟩ hcalls, hm⟩
    · rintro ⟨d, h, hm⟩
      cases h with
      | cons hreturns hcalls =>
        obtain ⟨limit, hpoll⟩ := exists_poll?_of_returns_ok hreturns
        exact .cons hpoll (ih.2 ⟨d, hcalls, hm⟩)

/-- A new listing of a cursor agrees with calls up to the first error. -/
structure ListsAsCalled (c : Cursor σ) : Prop where
  gives : ∀ (ts : List Token) (m : Listing σ), (Listing.mk c false).Gives (ts.map .ok) m ↔
    ∃ d, c.Calls (ts.map .ok) d ∧ m = ⟨d, false⟩
  collects : ∀ (items : List (Except LexicalError Token)) (m : Listing σ),
    (Listing.mk c false).Collects items m → ∃ (ts : List Token) (e : LexicalError) (d : Cursor σ),
      c.Calls (ts.map .ok ++ [.error e]) d ∧ items = ts.map .ok ++ shown e ∧ m.cursor.Alike d
  calls : ∀ (ts : List Token) (e : LexicalError) (d : Cursor σ),
    c.Calls (ts.map .ok ++ [.error e]) d →
      ∃ m, (Listing.mk c false).Collects (ts.map .ok ++ shown e) m ∧ m.cursor.Alike d
  stops : ∀ (items : List (Except LexicalError Token)) (e : LexicalError) (m : Listing σ),
    (Listing.mk c false).Gives (items ++ [.error e]) m → ∀ limit, m.poll? limit = some (none, m)

theorem listsAsCalled (c : Cursor σ) : c.ListsAsCalled where
  gives _ _ := gives_iff
  collects _ _ := exists_calls_of_collects
  calls _ _ _ := exists_collects_of_calls
  stops _ _ _ h := Listing.poll?_of_gives_error h

/-! ### One listing after the other -/

/-- New listings one after the other, each polled until it has none, until one gives nothing. -/
inductive Drains : Cursor σ → List (Except LexicalError Token) → Cursor σ → Prop
  | done {c : Cursor σ} {m : Listing σ} : (Listing.mk c false).Collects [] m →
      Drains c [] m.cursor
  | more {c d : Cursor σ} {first rest : List (Except LexicalError Token)} {m : Listing σ} :
      first ≠ [] → (Listing.mk c false).Collects first m → Drains m.cursor rest d →
      Drains c (first ++ rest) d

theorem drains_of_hasMore_eq_false (hmore : c.hasMore = false) (h : c.Drains items d) :
    items = [] ∧ d = c := by
  have hnone := Listing.collects_of_hasMore_eq_false hmore
  cases h with
  | done hcollects =>
    obtain ⟨-, rfl⟩ := hcollects.unique hnone
    exact ⟨rfl, rfl⟩
  | more hne hcollects _ => exact absurd (hcollects.unique hnone).1 hne

theorem end_notMem_map_ok (ts : List Token) (p : Position) :
    .error (.endOfInput p) ∉ ts.map (Except.ok (ε := LexicalError)) := by
  simp

theorem tokens_or_error (results : List (Except LexicalError Token)) :
    (∃ ts : List Token, results = ts.map .ok) ∨
      ∃ (ts : List Token) (e : LexicalError) (rest : List (Except LexicalError Token)),
        results = ts.map .ok ++ .error e :: rest := by
  induction results with
  | nil => exact .inl ⟨[], rfl⟩
  | cons result results ih =>
    cases result with
    | error e => exact .inr ⟨[], e, results, rfl⟩
    | ok t =>
      rcases ih with ⟨ts, rfl⟩ | ⟨ts, e, rest, rfl⟩
      · exact .inl ⟨t :: ts, rfl⟩
      · exact .inr ⟨t :: ts, e, rest, rfl⟩

section Candid

variable (hσ : IsCandid σ)
include hσ

theorem hasMore_of_calls_end {p : Position}
    (h : c.Calls (items ++ [.error (.endOfInput p)]) d) : d.hasMore = false := by
  obtain ⟨k, -, hlast⟩ := exists_calls_append h
  cases hlast with
  | cons hreturns hrest =>
    cases hrest
    obtain ⟨limit, htoken⟩ := hreturns
    exact (atEnd_of_token? hσ htoken).hasMore

theorem exists_calls_of_drains (h : c.Drains items d) :
    ∃ p e, c.Calls (items ++ [.error (.endOfInput p)]) e ∧
      (∀ q, .error (.endOfInput q) ∉ items) ∧ d.Alike e := by
  induction h with
  | done hcollects =>
    obtain ⟨ts, e, k, hcalls, hitems, hk⟩ := exists_calls_of_collects hcollects
    obtain ⟨hts, he⟩ := List.append_eq_nil_iff.1 hitems.symm
    obtain ⟨p, rfl⟩ := exists_endOfInput_of_shown he
    rw [hts] at hcalls
    exact ⟨p, k, hcalls, fun _ => List.not_mem_nil, hk⟩
  | @more c d first rest m _ hcollects hdrains ih =>
    obtain ⟨ts, e, k, hcalls, rfl, hk⟩ := exists_calls_of_collects hcollects
    cases hend : e.isEndOfInput with
    | true =>
      obtain ⟨p, rfl⟩ := LexicalError.exists_endOfInput hend
      have hmore : m.cursor.hasMore = false := by
        rw [← hasMore_of_alike hk]
        exact hasMore_of_calls_end hσ hcalls
      obtain ⟨rfl, rfl⟩ := drains_of_hasMore_eq_false hmore hdrains
      rw [shown_endOfInput, List.append_nil, List.append_nil]
      exact ⟨p, k, hcalls, end_notMem_map_ok ts, hk⟩
    | false =>
      obtain ⟨p, e', hrest, hnotMem, he'⟩ := ih
      obtain ⟨e'', hrest', he''⟩ := exists_calls_of_alike hrest hk
      have hall := hcalls.append hrest'
      rw [← List.append_assoc] at hall
      rw [shown_of_isEndOfInput_eq_false hend]
      refine ⟨p, e'', hall, fun q hq => ?_, he'.trans he''⟩
      rcases List.mem_append.1 hq with hq | hq
      · rcases List.mem_append.1 hq with hq | hq
        · exact end_notMem_map_ok ts q hq
        · cases List.mem_singleton.1 hq
          cases hend
      · exact hnotMem q hq

theorem exists_drains_of_calls {p : Position} (hitems : ∀ q, .error (.endOfInput q) ∉ items)
    (h : c.Calls (items ++ [.error (.endOfInput p)]) d) : ∃ e, c.Drains items e ∧ e.Alike d := by
  induction hlength : items.length using Nat.strongRecOn generalizing c d items with
  | ind n ih =>
    rcases tokens_or_error items with ⟨ts, rfl⟩ | ⟨ts, e, rest, rfl⟩
    · obtain ⟨m, hcollects, hm⟩ := exists_collects_of_calls h
      rw [shown_endOfInput, List.append_nil] at hcollects
      have hmore : m.cursor.hasMore = false := by
        rw [← hasMore_of_alike hm]
        exact hasMore_of_calls_end hσ h
      have hdone := Drains.done (Listing.collects_of_hasMore_eq_false hmore)
      by_cases hts : ts.map (Except.ok (ε := LexicalError)) = []
      · rw [hts] at hcollects ⊢
        exact ⟨m.cursor, .done hcollects, hm⟩
      · have hdrains := Drains.more hts hcollects hdone
        rw [List.append_nil] at hdrains
        exact ⟨m.cursor, hdrains, hm⟩
    · have hend : e.isEndOfInput = false := by
        rw [Bool.eq_false_iff]
        intro hend
        obtain ⟨q, rfl⟩ := LexicalError.exists_endOfInput hend
        exact hitems q (List.mem_append_right _ List.mem_cons_self)
      have hsplit : ts.map .ok ++ .error e :: rest = (ts.map .ok ++ [.error e]) ++ rest := by simp
      rw [hsplit, List.append_assoc] at h
      obtain ⟨k, hfirst, hrest⟩ := exists_calls_append h
      obtain ⟨m, hcollects, hm⟩ := exists_collects_of_calls hfirst
      rw [shown_of_isEndOfInput_eq_false hend] at hcollects
      obtain ⟨d', hrest', hd'⟩ := exists_calls_of_alike hrest hm.symm
      have hshorter : rest.length < n := by
        rw [← hlength, List.length_append, List.length_cons]
        omega
      have hnotMem : ∀ q, .error (.endOfInput q) ∉ rest := fun q hq =>
        hitems q (List.mem_append_right _ (List.mem_cons_of_mem _ hq))
      obtain ⟨e', hdrains, he'⟩ := ih _ hshorter hnotMem hrest' rfl
      rw [hsplit]
      exact ⟨e', .more (by simp) hcollects hdrains, he'.trans hd'.symm⟩

end Candid

/-- New listings one after the other agree with calls up to the first report of the end. -/
structure DrainsAsCalled (c : Cursor σ) : Prop where
  drains : ∀ (items : List (Except LexicalError Token)) (d : Cursor σ), c.Drains items d →
    ∃ p e, c.Calls (items ++ [.error (.endOfInput p)]) e ∧
      (∀ q, .error (.endOfInput q) ∉ items) ∧ d.Alike e
  calls : ∀ (items : List (Except LexicalError Token)) (p : Position) (d : Cursor σ),
    (∀ q, .error (.endOfInput q) ∉ items) → c.Calls (items ++ [.error (.endOfInput p)]) d →
      ∃ e, c.Drains items e ∧ e.Alike d

theorem drainsAsCalled (hσ : IsCandid σ) (c : Cursor σ) : c.DrainsAsCalled where
  drains _ _ := exists_calls_of_drains hσ
  calls _ _ _ := exists_drains_of_calls hσ

end Cursor

/-! ### All tokens of a text -/

theorem collects_collect {σ : Type} [Source σ] [Bounded σ] (l : Listing σ) :
    l.Collects l.collect.1 l.collect.2 :=
  ⟨_, _, (Option.some_get _).symm⟩

theorem collects_tokens {σ : Type} [Source σ] [Bounded σ] (c : Cursor σ) :
    ∃ m, (Listing.mk c false).Collects c.tokens.1 m :=
  ⟨_, collects_collect _⟩

theorem sequence_shown (ts : List Token) (e : LexicalError) :
    sequence (ts.map .ok ++ shown e) = if e.isEndOfInput then .ok ts else .error e := by
  induction ts with
  | nil =>
    rw [List.map_nil, List.nil_append, shown]
    split <;> rfl
  | cons t ts ih =>
    rw [List.map_cons, List.cons_append, sequence, ih]
    split <;> rfl

theorem tokenize_of_calls {bytes : List UInt8} {ts : List Token} {e : LexicalError}
    {d : Cursor (List UInt8)} (h : (Cursor.ofSource bytes).Calls (ts.map .ok ++ [.error e]) d) :
    tokenize bytes = if e.isEndOfInput then .ok ts else .error e := by
  obtain ⟨m, htokens⟩ := collects_tokens (Cursor.ofSource bytes)
  obtain ⟨m', hcollects, -⟩ := Cursor.exists_collects_of_calls h
  rw [tokenize, (htokens.unique hcollects).1, sequence_shown]

/-- All tokens of a text are there if and only if the calls return them and then the end of the
input, and otherwise the first error that the calls return is. -/
structure TokenizesAsCalled (bytes : List UInt8) : Prop where
  ok_iff : ∀ ts : List Token, tokenize bytes = .ok ts ↔
    ∃ p d, (Cursor.ofSource bytes).Calls (ts.map .ok ++ [.error (.endOfInput p)]) d
  error_iff : ∀ e : LexicalError, tokenize bytes = .error e ↔
    e.isEndOfInput = false ∧
      ∃ (ts : List Token) (d : Cursor (List UInt8)),
        (Cursor.ofSource bytes).Calls (ts.map .ok ++ [.error e]) d

theorem tokenizesAsCalled (bytes : List UInt8) : TokenizesAsCalled bytes := by
  obtain ⟨m, htokens⟩ := collects_tokens (Cursor.ofSource bytes)
  obtain ⟨ts, e, d, hcalls, -⟩ := Cursor.exists_calls_of_collects htokens
  have htokenize := tokenize_of_calls hcalls
  constructor
  · intro ts'
    constructor
    · intro hok
      rw [hok] at htokenize
      split at htokenize
      · rename_i hend
        cases htokenize
        obtain ⟨p, rfl⟩ := LexicalError.exists_endOfInput hend
        exact ⟨p, d, hcalls⟩
      · cases htokenize
    · rintro ⟨p, d', hcalls'⟩
      exact tokenize_of_calls hcalls'
  · intro e'
    constructor
    · intro herror
      rw [herror] at htokenize
      split at htokenize
      · cases htokenize
      · rename_i hend
        cases htokenize
        exact ⟨Bool.eq_false_iff.2 hend, ts, d, hcalls⟩
    · rintro ⟨hend, ts', d', hcalls'⟩
      rw [tokenize_of_calls hcalls', if_neg (Bool.eq_false_iff.1 hend)]

/-- **Listing and calling agree.** -/
theorem listing_agrees_with_calls :
    (∀ {σ : Type} [Source σ] (c : Cursor σ), c.ListsAsCalled) ∧
    (∀ c : Cursor (List UInt8), c.DrainsAsCalled) ∧
    (∀ {ρ : Type} [Reader ρ] [Patient ρ] (c : Cursor (Feed ρ)), c.DrainsAsCalled) ∧
    ∀ bytes : List UInt8, TokenizesAsCalled bytes := by
  refine ⟨Cursor.listsAsCalled, Cursor.drainsAsCalled isCandid_slice, ?_, tokenizesAsCalled⟩
  intro ρ _ _ c
  exact Cursor.drainsAsCalled isCandid_feed c

end BasicTokens
