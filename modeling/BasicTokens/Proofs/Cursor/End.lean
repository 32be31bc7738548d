import BasicTokens.Proofs.Cursor.Release
import BasicTokens.Proofs.Scan.Decided
import BasicTokens.Source.Script

/-!
# The end of the input

Bytes in memory know when they are used up, and a feed takes the first empty read for the end,
whatever its reader would still give. So neither says that it has more once a read has come back
empty (`IsCandid`), and a cursor over such a source that has reported the end, in whatever way, has
no more (`AtEnd`). A cursor that has no more does not look at its source again: filling it changes
nothing. So it stays where it is until it is closed, whatever is asked of it meanwhile.

Over other sources the end is only an answer for the time being.
-/

namespace BasicTokens

/-- Once a read has come back empty, the source says that it has no more. -/
def IsCandid (σ : Type) [Source σ] : Prop :=
  ∀ (s : σ) (buffer : Vector UInt8 capacity), Source.available s = true →
    (Reader.read s buffer).outcome = .ok 0 → Source.available (Reader.read s buffer).next = false

theorem isCandid_slice : IsCandid (List UInt8) := by
  intro bytes buffer ha hok
  have hzero : min capacity bytes.length = 0 := Except.ok.inj hok
  have hlength : bytes.length = 0 := by
    simp only [capacity] at hzero
    omega
  rw [List.length_eq_zero_iff.1 hlength] at ha
  cases ha

theorem isCandid_recorded {σ : Type} [Source σ] (h : IsCandid σ) : IsCandid (Recorded σ) :=
  fun s buffer => h s.inner buffer

theorem isCandid_feed {ρ : Type} [Reader ρ] [Patient ρ] : IsCandid (Feed ρ) := by
  intro feed buffer ha hok
  have hreleased : feed.released = false := by
    simp only [Source.available, Bool.and_eq_true, Bool.not_eq_true'] at ha
    exact ha.1
  by_cases hzero : (feed.reading buffer).outcome = .ok 0
  · rw [Feed.read_of_ok_zero hreleased hzero]
    simp [Source.available, capacity]
  · rw [Feed.read_of_ne_ok_zero hreleased hzero] at hok
    exact absurd hok hzero

namespace Cursor

variable {σ : Type} [Source σ] {c d : Cursor σ} {source : σ} {p : Position}

structure AtEnd (source : σ) (p : Position) (c : Cursor σ) : Prop where
  hasMore : c.hasMore = false
  source : c.source = source
  position : c.position = p

theorem isKept_atEnd : IsKept (AtEnd source p) where
  fill h _ := by rwa [fill_of_hasMore_eq_false h.hasMore]
  advance h hpos := absurd hpos (hasMore_eq_false_iff.1 h.hasMore).1
  note _ h := ⟨h.hasMore, h.source, h.position⟩

/-! ### Reports of the end -/

section Candid

variable (hσ : IsCandid σ)
include hσ

theorem atEnd_of_fill (hpos : ¬c.pos < c.len) (h : c.fill = (.error (.endOfInput p), d)) :
    d.AtEnd d.source p := by
  have hfills := fills_of_fill h
  generalize hresult : Except.error (LexicalError.endOfInput p) = result at hfills
  cases hfills with
  | unasked hend =>
    cases hresult
    exact ⟨hasMore_eq_false_iff.2 ⟨hpos, hend⟩, rfl, rfl⟩
  | failed => cases hresult
  | @read reported _ ha hok =>
    split at hresult
    · rename_i hcount
      cases hresult
      have hmin : min reported capacity = 0 := by rwa [Reading.count, hok] at hcount
      have hreported : reported = 0 := by
        simp only [capacity] at hmin
        omega
      rw [hreported] at hok
      have hempty : ¬c.refilled.pos < c.refilled.len := by
        show ¬0 < (Reader.read c.source c.buffer).count
        omega
      exact ⟨hasMore_eq_false_iff.2 ⟨hempty, .inr (hσ c.source c.buffer ha hok)⟩, rfl, rfl⟩
    · cases hresult

theorem atEnd_of_peek (h : c.peek = (.error (.endOfInput p), d)) : d.AtEnd d.source p := by
  have hpos : ¬c.pos < c.len := by
    intro hpos
    rw [peek_of_pos_lt_len hpos] at h
    cases h
  exact atEnd_of_fill hσ hpos (fill_of_peek_error h)

theorem atEnd_of_peek? (h : c.peek? = (.ok none, d)) : d.AtEnd d.source d.position := by
  obtain ⟨p, hpeek⟩ := exists_peek_of_peek?_none h
  have hend := atEnd_of_peek hσ hpeek
  exact ⟨hend.hasMore, rfl, rfl⟩

theorem atEnd_of_next (h : c.next = (.error (.endOfInput p), d)) : d.AtEnd d.source p := by
  rcases hpeek : c.peek with ⟨result, k⟩
  cases result with
  | ok ch =>
    rw [next_of_peek_ok hpeek] at h
    cases h
  | error e =>
    rw [next_of_peek_error hpeek] at h
    cases h
    exact atEnd_of_peek hσ hpeek

theorem atEnd_of_scan? {limit : Nat} {scan : Scan}
    (h : c.scan? limit scan = some (.error (.endOfInput p), d)) : d.AtEnd d.source p := by
  induction limit generalizing scan c with
  | zero => cases h
  | succ limit ih =>
    rw [scan?] at h
    split at h
    · rename_i hpeek
      obtain ⟨cause, hcause⟩ := exists_cause_of_peek? hpeek
      subst hcause
      cases h
    · rename_i k hpeek
      rw [Option.some.injEq, Prod.mk.injEq] at h
      obtain ⟨hfinish, rfl⟩ := h
      rw [Scan.eq_of_finish_endOfInput hfinish]
      exact atEnd_of_peek? hσ hpeek
    · split at h
      · exact ih h
      · rename_i hstep
        cases h
        cases Scan.isEndOfInput_of_leave hstep
      · cases h

theorem atEnd_of_token? {limit : Nat} (h : c.token? limit = some (.error (.endOfInput p), d)) :
    d.AtEnd d.source p := by
  rw [token?, Option.map_eq_some_iff] at h
  obtain ⟨⟨result, k⟩, hscan, hnote⟩ := h
  cases hnote
  exact isKept_atEnd.note _ (atEnd_of_scan? hσ hscan)

end Candid

end Cursor

namespace Listing

variable {σ : Type} [Source σ] {l m : Listing σ} {source : σ} {p : Position}

/-- To tell that the input has ended at this position, in one of the ways there are. -/
inductive ReportsEnd (l : Listing σ) : Position → Listing σ → Prop
  | token {limit : Nat} {p : Position} {d : Cursor σ} :
      l.cursor.token? limit = some (.error (.endOfInput p), d) →
      ReportsEnd l p { l with cursor := d }
  | peek {p : Position} {d : Cursor σ} : l.cursor.peek = (.error (.endOfInput p), d) →
      ReportsEnd l p { l with cursor := d }
  | next {p : Position} {d : Cursor σ} : l.cursor.next = (.error (.endOfInput p), d) →
      ReportsEnd l p { l with cursor := d }
  | peek? {d : Cursor σ} : l.cursor.peek? = (.ok none, d) →
      ReportsEnd l d.position { l with cursor := d }
  /-- A listing that has given an error stops wherever it is, so its stopping tells nothing. -/
  | item {limit : Nat} {m : Listing σ} : l.failed = false → l.poll? limit = some (none, m) →
      ReportsEnd l m.cursor.position m

theorem atEnd_of_reportsEnd (hσ : IsCandid σ) (h : l.ReportsEnd p m) :
    m.cursor.AtEnd m.cursor.source p := by
  cases h with
  | token h => exact Cursor.atEnd_of_token? hσ h
  | peek h => exact Cursor.atEnd_of_peek hσ h
  | next h => exact Cursor.atEnd_of_next hσ h
  | peek? h => exact Cursor.atEnd_of_peek? hσ h
  | item hopen hpoll =>
    cases polled_of_poll? hpoll with
    | unasked hend =>
      have hmore : l.cursor.hasMore = false := by simpa [hopen] using hend
      exact ⟨hmore, rfl, rfl⟩
    | ended _ htoken => exact ⟨(Cursor.atEnd_of_token? hσ htoken).hasMore, rfl, rfl⟩

/-- A listing whose cursor has come to the end at this position and leaves its source alone. -/
structure IsExhausted (source : σ) (p : Position) (l : Listing σ) : Prop where
  source : l.cursor.source = source
  position : l.cursor.position = p
  hasMore : l.cursor.hasMore = false
  peek : l.cursor.peek = (.error (.endOfInput p), l.cursor)
  peek? : l.cursor.peek? = (.ok none, l.cursor)
  next : l.cursor.next = (.error (.endOfInput p), l.cursor)
  advance : l.cursor.advance = l.cursor
  token? : ∀ limit,
    l.cursor.token? (limit + 1) = some (.error (.endOfInput p), l.cursor.note (.endOfInput p))
  poll? : ∀ limit, l.poll? limit = some (none, l)

theorem isExhausted_of_atEnd (h : l.cursor.AtEnd source p) : l.IsExhausted source p := by
  obtain ⟨hmore, rfl, rfl⟩ := h
  have hpeek := Cursor.peek_of_hasMore_eq_false hmore
  exact {
    source := rfl
    position := rfl
    hasMore := hmore
    peek := hpeek
    peek? := Cursor.peek?_of_hasMore_eq_false hmore
    next := Cursor.next_of_peek_error hpeek
    advance := if_neg (Cursor.hasMore_eq_false_iff.1 hmore).1
    token? := Cursor.token?_of_hasMore_eq_false hmore
    poll? := poll?_of_hasMore_eq_false hmore }

/-- Until it is closed, whatever is asked of it, the listing is answered at once and stays at the
end: its source and its position stay as they are. -/
def StaysAtEnd (p : Position) (l : Listing σ) : Prop :=
  ∀ limit later, Request.close ∉ later →
    ∃ m, l.run? (limit + 1) later = some m ∧ m.IsExhausted l.cursor.source p

theorem staysAtEnd_of_atEnd (h : l.cursor.AtEnd l.cursor.source p) : l.StaysAtEnd p := by
  intro limit later hlater
  have htoken : ∀ {c : Cursor σ}, c.AtEnd l.cursor.source p →
      (c.token? (limit + 1)).isSome = true := by
    intro c hc
    rw [Cursor.token?_of_hasMore_eq_false hc.hasMore, Option.isSome_some]
  obtain ⟨m, hrun, hm⟩ := exists_run?_of_isKept Cursor.isKept_atEnd
    (fun hclose => absurd hclose hlater) htoken h
  exact ⟨m, hrun, isExhausted_of_atEnd hm⟩

end Listing

/-- **The end of the input stays the end.** Over bytes in memory and over any reader, once anything
has told that the input has ended, everything tells so from then on until the cursor is closed, at
the same position and without another read. -/
theorem staysAtEnd_of_reportsEnd :
    (∀ (l m : Listing (Recorded (List UInt8))) (p : Position), l.ReportsEnd p m →
      m.StaysAtEnd p) ∧
    (∀ {ρ : Type} [Reader ρ] [Patient ρ] (l m : Listing (Feed (Recorded ρ))) (p : Position),
      l.ReportsEnd p m → m.StaysAtEnd p) := by
  refine ⟨?_, ?_⟩
  · intro l m p h
    exact Listing.staysAtEnd_of_atEnd
      (Listing.atEnd_of_reportsEnd (isCandid_recorded isCandid_slice) h)
  · intro ρ _ _ l m p h
    exact Listing.staysAtEnd_of_atEnd (Listing.atEnd_of_reportsEnd isCandid_feed h)

/-- A blank in memory, listed to its end, and a reader that would give more behind an empty read. -/
theorem staysAtEnd_of_empty_read :
    (∃ m, (Listing.mk (.ofSource (⟨[0x20], []⟩ : Recorded (List UInt8))) false).ReportsEnd ⟨1, 2⟩ m
        ∧ m.StaysAtEnd ⟨1, 2⟩) ∧
    (∃ m, (Listing.mk (.ofSource (⟨⟨⟨[.data [] none, .data [0x32] none]⟩, []⟩, false, false⟩ :
          Feed (Recorded Script))) false).ReportsEnd .start m
        ∧ m.StaysAtEnd .start) := by
  refine ⟨?_, ?_⟩
  · have hlist : ((Listing.mk (.ofSource (⟨[0x20], []⟩ : Recorded (List UInt8))) false).poll? 2).map
        (fun answer => (answer.1.isNone, answer.2.cursor.position)) = some (true, ⟨1, 2⟩) := by
      decide +kernel
    obtain ⟨⟨item, m⟩, hpoll, hanswer⟩ := Option.map_eq_some_iff.1 hlist
    rw [Prod.mk.injEq, Option.isNone_iff_eq_none] at hanswer
    obtain ⟨rfl, hposition⟩ := hanswer
    have hreport := Listing.ReportsEnd.item rfl hpoll
    rw [hposition] at hreport
    exact ⟨m, hreport, staysAtEnd_of_reportsEnd.1 _ m _ hreport⟩
  · obtain ⟨d, htoken⟩ : ∃ d, (Cursor.ofSource (⟨⟨⟨[.data [] none, .data [0x32] none]⟩, []⟩,
        false, false⟩ : Feed (Recorded Script))).token? 1
          = some (.error (.endOfInput .start), d) := ⟨_, rfl⟩
    have hreport : (Listing.mk _ false).ReportsEnd .start ⟨d, false⟩ := .token htoken
    exact ⟨⟨d, false⟩, hreport, staysAtEnd_of_reportsEnd.2 _ _ _ hreport⟩

end BasicTokens
