import BasicTokens.Proofs.Cursor.Operation
import BasicTokens.Source.Recorded

/-!
# Releasing a source

A cursor may be asked for anything at any time, also to close, and also when it has been closed.
Dropping it closes it. Whatever is asked, its source is closed once: by the first request to close,
or else when the cursor is dropped. Two things are followed from request to request. What the source
has gone through fits whether the cursor is closed (`Tracks`), since a closed cursor neither reads
nor closes; and a closed cursor has nothing in its buffer (`IsTidy`), so that from its closing on it
is at rest (`AtRest`) and all it has to say is that the input has ended (`IsSilent`).

A call on an arbitrary source need not return, and nothing can be asked after a call that does not.
Over a bounded source every call returns (`exists_run?_ofSource`), and over any source every call
behind the closing does (`exists_atRest_run?`).
-/

namespace BasicTokens

/-- What can be asked of a listing and of its cursor. -/
inductive Request where
  | operation (op : Cursor.Operation)
  | token
  | list
  | item
  | close
deriving DecidableEq, Repr

namespace Listing

variable {σ : Type} [Source σ]

/-- Closes the cursor. Dropping it does the same. -/
def close (l : Listing σ) : Listing σ :=
  { l with cursor := l.cursor.close }

def perform? (limit : Nat) (l : Listing σ) : Request → Option (Listing σ)
  | .operation op => some { l with cursor := l.cursor.perform op }
  | .token => (l.cursor.token? limit).map fun answer => { l with cursor := answer.2 }
  | .list => some { l with failed := false }
  | .item => (l.poll? limit).map fun answer => answer.2
  | .close => some l.close

def run? (limit : Nat) : List Request → Listing σ → Option (Listing σ)
  | [], l => some l
  | request :: requests, l => (l.perform? limit request).bind (run? limit requests)

end Listing

namespace Cursor

variable {σ : Type} [Source σ] {c : Cursor σ}

/-! ### Whether a cursor is closed -/

theorem closed_fill (c : Cursor σ) : c.fill.2.closed = c.closed := by
  rcases hfill : c.fill with ⟨result, d⟩
  cases fills_of_fill hfill with
  | unasked => rfl
  | failed => rfl
  | read => rfl

omit [Source σ] in
theorem closed_advance (c : Cursor σ) : c.advance.closed = c.closed := by
  unfold advance
  split <;> rfl

theorem closed_close (c : Cursor σ) : c.close.closed = true := by
  unfold close
  split
  · assumption
  · rfl

theorem close_of_closed (h : c.closed = true) : c.close = c :=
  if_pos h

theorem source_close_of_open (h : c.closed = false) : c.close.source = Reader.close c.source := by
  simp [close, h]

theorem isKept_closed (closed : Bool) : IsKept fun c : Cursor σ => c.closed = closed where
  fill h _ := by rw [closed_fill, h]
  advance h _ := by rw [closed_advance, h]
  note _ h := h

/-! ### What a source has gone through -/

/-- A relation between whether a cursor is closed and its source, which reads and the closing
respect. -/
structure Tracks (R : Bool → σ → Prop) : Prop where
  read : ∀ {s} (buffer : Vector UInt8 capacity), R false s → R false (Reader.read s buffer).next
  close : ∀ {s}, R false s → R true (Reader.close s)

theorem Tracks.isKept {R : Bool → σ → Prop} (hR : Tracks R) :
    IsKept fun c : Cursor σ => R c.closed c.source where
  fill {c} h _ := by
    rw [closed_fill]
    have hread : c.closed = false → R c.closed (Reader.read c.source c.buffer).next := by
      intro hclosed
      rw [hclosed] at h ⊢
      exact hR.read c.buffer h
    rcases hfill : c.fill with ⟨result, d⟩
    cases fills_of_fill hfill with
    | unasked => exact h
    | failed hclosed => exact hread hclosed
    | read hclosed => exact hread hclosed
  advance h _ := by rwa [closed_advance, source_advance]
  note _ h := h

theorem Tracks.of_close {R : Bool → σ → Prop} (hR : Tracks R) (h : R c.closed c.source) :
    R true c.close.source := by
  cases hclosed : c.closed with
  | true =>
    rw [close_of_closed hclosed]
    rwa [hclosed] at h
  | false =>
    rw [source_close_of_open hclosed]
    rw [hclosed] at h
    exact hR.close h

/-! ### At rest -/

def IsTidy (c : Cursor σ) : Prop :=
  c.closed = true → ¬c.pos < c.len

theorem isKept_isTidy : IsKept (IsTidy (σ := σ)) where
  fill h _ hclosed := by
    rw [closed_fill] at hclosed
    rw [fill_of_closed hclosed]
    exact h hclosed
  advance h hpos hclosed := by
    rw [closed_advance] at hclosed
    exact absurd hpos (h hclosed)
  note _ h := h

/-- A closed cursor, with the source and the position that it had when it was closed. -/
structure AtRest (source : σ) (position : Position) (c : Cursor σ) : Prop where
  closed : c.closed = true
  empty : ¬c.pos < c.len
  source : c.source = source
  position : c.position = position

variable {source : σ} {p : Position}

omit [Source σ] in
theorem atRest_of_closed (h : c.IsTidy) (hclosed : c.closed = true) :
    c.AtRest c.source c.position :=
  ⟨hclosed, h hclosed, rfl, rfl⟩

theorem atRest_close (h : c.IsTidy) : c.close.AtRest c.close.source c.position := by
  by_cases hclosed : c.closed = true
  · rw [close_of_closed hclosed]
    exact atRest_of_closed h hclosed
  · rw [close, if_neg hclosed]
    exact ⟨rfl, Nat.lt_irrefl 0, rfl, rfl⟩

theorem isKept_atRest : IsKept (AtRest source p) where
  fill h _ := by rwa [fill_of_closed h.closed]
  advance h hpos := absurd hpos h.empty
  note _ h := ⟨h.closed, h.empty, h.source, h.position⟩

theorem hasMore_of_atRest (h : c.AtRest source p) : c.hasMore = false := by
  simp [hasMore, h.closed, h.empty]

theorem peek_of_atRest (h : c.AtRest source p) : c.peek = (.error (.endOfInput p), c) := by
  rw [peek_of_hasMore_eq_false (hasMore_of_atRest h), h.position]

theorem token?_of_atRest (h : c.AtRest source p) (limit : Nat) :
    c.token? (limit + 1) = some (.error (.endOfInput p), c.note (.endOfInput p)) := by
  rw [token?_of_hasMore_eq_false (hasMore_of_atRest h), h.position]

end Cursor

namespace Listing

variable {σ : Type} [Source σ] {l m : Listing σ} {P : Cursor σ → Prop} {limit : Nat}
  {request : Request} {requests : List Request} {source : σ} {p : Position}

/-! ### Requests -/

theorem perform?_of_isKept (hP : Cursor.IsKept P)
    (hclose : request = .close → P l.cursor.close) (h : P l.cursor)
    (hperform : l.perform? limit request = some m) : P m.cursor := by
  cases request with
  | operation op =>
    cases hperform
    exact hP.perform h op
  | token =>
    rw [perform?, Option.map_eq_some_iff] at hperform
    obtain ⟨⟨result, d⟩, htoken, hm⟩ := hperform
    cases hm
    exact hP.token? h htoken
  | list =>
    cases hperform
    exact h
  | item =>
    rw [perform?, Option.map_eq_some_iff] at hperform
    obtain ⟨⟨item, k⟩, hpoll, hm⟩ := hperform
    cases hm
    exact hP.poll? h hpoll
  | close =>
    cases hperform
    exact hclose rfl

theorem run?_of_isKept (hP : Cursor.IsKept P) (hclose : ∀ {c : Cursor σ}, P c → P c.close)
    (h : P l.cursor) (hrun : l.run? limit requests = some m) : P m.cursor := by
  induction requests generalizing l with
  | nil =>
    cases hrun
    exact h
  | cons request requests ih =>
    rw [run?, Option.bind_eq_some_iff] at hrun
    obtain ⟨k, hperform, hrest⟩ := hrun
    exact ih (perform?_of_isKept hP (fun _ => hclose h) h hperform) hrest

theorem isSome_poll?_of_isSome_token? (h : (l.cursor.token? limit).isSome = true) :
    (l.poll? limit).isSome = true := by
  unfold poll?
  split
  · rfl
  · rwa [Option.isSome_map]

theorem isSome_perform? (h : (l.cursor.token? limit).isSome = true) (request : Request) :
    (l.perform? limit request).isSome = true := by
  cases request with
  | operation op => rfl
  | token => rwa [perform?, Option.isSome_map]
  | list => rfl
  | item =>
    rw [perform?, Option.isSome_map]
    exact isSome_poll?_of_isSome_token? h
  | close => rfl

/-- All requests are answered if every call returns on the cursors that are met on the way. -/
theorem exists_run?_of_isKept (hP : Cursor.IsKept P)
    (hclose : .close ∈ requests → ∀ {c : Cursor σ}, P c → P c.close)
    (htoken : ∀ {c : Cursor σ}, P c → (c.token? limit).isSome = true) (h : P l.cursor) :
    ∃ m, l.run? limit requests = some m ∧ P m.cursor := by
  induction requests generalizing l with
  | nil => exact ⟨l, rfl, h⟩
  | cons request requests ih =>
    obtain ⟨k, hperform⟩ := Option.isSome_iff_exists.1 (isSome_perform? (htoken h) request)
    have hk : P k.cursor := by
      refine perform?_of_isKept hP (fun hrequest => hclose ?_ h) h hperform
      rw [hrequest]
      exact List.mem_cons_self
    rw [run?, hperform]
    exact ih (fun hmem => hclose (List.mem_cons_of_mem _ hmem)) hk

theorem closed_perform? (hperform : l.perform? limit request = some m) :
    m.cursor.closed = (l.cursor.closed || request = .close) := by
  by_cases hrequest : request = .close
  · subst hrequest
    cases hperform
    simp [close, Cursor.closed_close]
  · have hclosed := perform?_of_isKept (Cursor.isKept_closed l.cursor.closed)
      (fun hclose => absurd hclose hrequest) rfl hperform
    simp [hclosed, hrequest]

theorem closed_run? (hrun : l.run? limit requests = some m) :
    m.cursor.closed = (l.cursor.closed || .close ∈ requests) := by
  induction requests generalizing l with
  | nil =>
    cases hrun
    simp
  | cons request requests ih =>
    rw [run?, Option.bind_eq_some_iff] at hrun
    obtain ⟨k, hperform, hrest⟩ := hrun
    rw [ih hrest, closed_perform? hperform]
    simp [Bool.or_assoc, eq_comm]

theorem isTidy_run? (h : l.cursor.IsTidy) (hrun : l.run? limit requests = some m) :
    m.cursor.IsTidy :=
  run?_of_isKept Cursor.isKept_isTidy (fun hc _ => (Cursor.atRest_close hc).empty) h hrun

theorem tracks_run? {R : Bool → σ → Prop} (hR : Cursor.Tracks R)
    (h : R l.cursor.closed l.cursor.source) (hrun : l.run? limit requests = some m) :
    R m.cursor.closed m.cursor.source := by
  refine run?_of_isKept hR.isKept ?_ h hrun
  intro c hc
  rw [Cursor.closed_close]
  exact hR.of_close hc

/-! ### Silence -/

/-- A listing that has been closed at this position and leaves its source alone. -/
structure IsSilent (source : σ) (p : Position) (l : Listing σ) : Prop where
  isClosed : l.cursor.closed = true
  source : l.cursor.source = source
  position : l.cursor.position = p
  hasMore : l.cursor.hasMore = false
  peek : l.cursor.peek = (.error (.endOfInput p), l.cursor)
  peek? : l.cursor.peek? = (.ok none, l.cursor)
  next : l.cursor.next = (.error (.endOfInput p), l.cursor)
  advance : l.cursor.advance = l.cursor
  token? : ∀ limit,
    l.cursor.token? (limit + 1) = some (.error (.endOfInput p), l.cursor.note (.endOfInput p))
  poll? : ∀ limit, l.poll? limit = some (none, l)
  close : l.close = l

theorem isSilent_of_atRest (h : l.cursor.AtRest source p) : l.IsSilent source p where
  isClosed := h.closed
  source := h.source
  position := h.position
  hasMore := Cursor.hasMore_of_atRest h
  peek := Cursor.peek_of_atRest h
  peek? := Cursor.peek?_of_hasMore_eq_false (Cursor.hasMore_of_atRest h)
  next := Cursor.next_of_peek_error (Cursor.peek_of_atRest h)
  advance := if_neg h.empty
  token? := Cursor.token?_of_atRest h
  poll? limit := by simp [Listing.poll?, Cursor.hasMore_of_atRest h]
  close := by rw [Listing.close, Cursor.close_of_closed h.closed]

theorem exists_atRest_run? (h : l.cursor.AtRest source p) (limit : Nat)
    (requests : List Request) :
    ∃ m, l.run? (limit + 1) requests = some m ∧ m.cursor.AtRest source p := by
  refine exists_run?_of_isKept Cursor.isKept_atRest ?_ ?_ h
  · intro _ c hc
    rwa [Cursor.close_of_closed hc.closed]
  · intro c hc
    rw [Cursor.token?_of_atRest hc, Option.isSome_some]

end Listing

/-! ### Requests over a bounded source -/

namespace Cursor

variable {σ : Type} [Source σ] [Bounded σ] {c : Cursor σ} {limit : Nat}

structure IsWithin (limit : Nat) (c : Cursor σ) : Prop where
  tidy : c.IsTidy
  within : c.closed = true ∨ c.budget < limit

theorem isKept_isWithin : IsKept (IsWithin (σ := σ) limit) where
  fill {c} h hpos := by
    refine ⟨isKept_isTidy.fill h.tidy hpos, ?_⟩
    rw [closed_fill]
    exact h.within.imp_right (Nat.lt_of_le_of_lt (budget_fill_le rfl))
  advance {c} h hpos := by
    refine ⟨isKept_isTidy.advance h.tidy hpos, ?_⟩
    rw [closed_advance]
    exact h.within.imp_right (Nat.lt_of_le_of_lt (budget_advance_le c))
  note _ h := ⟨h.tidy, h.within⟩

theorem isSome_token?_of_isWithin (h : c.IsWithin (limit + 1)) :
    (c.token? (limit + 1)).isSome = true := by
  rcases h.within with hclosed | hbudget
  · rw [token?_of_atRest (atRest_of_closed h.tidy hclosed), Option.isSome_some]
  · exact isSome_token? c hbudget

end Cursor

namespace Listing

variable {σ : Type} [Source σ] [Bounded σ] {l : Listing σ} {limit : Nat}

theorem exists_run?_of_isWithin (h : l.cursor.IsWithin (limit + 1)) (requests : List Request) :
    ∃ m, l.run? (limit + 1) requests = some m := by
  -- the budget of a closed source is not known, but it is not read any more
  have hclose : ∀ {c : Cursor σ}, c.IsWithin (limit + 1) → c.close.IsWithin (limit + 1) :=
    fun hc => ⟨fun _ => (Cursor.atRest_close hc.tidy).empty, .inl (Cursor.closed_close _)⟩
  obtain ⟨m, hrun, -⟩ := exists_run?_of_isKept Cursor.isKept_isWithin (fun _ => hclose)
    Cursor.isSome_token?_of_isWithin h
  exact ⟨m, hrun⟩

theorem exists_run?_ofSource (s : σ) (limit : Nat) (h : Bounded.budget s ≤ limit)
    (requests : List Request) :
    ∃ m, (Listing.mk (.ofSource s) false).run? (limit + 1) requests = some m := by
  refine exists_run?_of_isWithin ⟨fun _ => Nat.lt_irrefl 0, .inr ?_⟩ requests
  show 0 - 0 + Bounded.budget s < limit + 1
  omega

end Listing

/-! ### Sources and readers -/

namespace Recorded

variable {ρ : Type} [Reader ρ]

theorem closes_read (r : Recorded ρ) {n : Nat} (buffer : Vector UInt8 n) :
    (Reader.read r buffer).next.closes = r.closes :=
  List.countP_cons_of_neg Bool.false_ne_true

theorem closes_close (r : Recorded ρ) : (Reader.close r).closes = r.closes + 1 :=
  List.countP_cons_of_pos rfl

theorem closes_readPatiently (retries : Nat) (r : Recorded ρ) {n : Nat}
    (buffer : Vector UInt8 n) : (readPatiently retries r buffer).next.closes = r.closes := by
  induction retries generalizing r buffer with
  | zero => exact r.closes_read buffer
  | succ retries ih =>
    simp only [readPatiently]
    split
    · rw [ih, closes_read]
    · exact r.closes_read buffer

end Recorded

theorem tracks_closes {σ : Type} [Source σ] :
    Cursor.Tracks fun closed (s : Recorded σ) => s.closes = closed.toNat where
  read {s} buffer h := by rw [s.closes_read buffer, h]
  close {s} h := by rw [s.closes_close, h]; rfl

theorem tracks_closes_feed {ρ : Type} [Reader ρ] [Patient ρ] :
    Cursor.Tracks fun closed (feed : Feed (Recorded ρ)) =>
      feed.released = closed ∧ feed.reader.closes = closed.toNat where
  read {feed} buffer h := by
    obtain ⟨hreleased, hcloses⟩ := h
    have hnext : (feed.reading buffer).next.closes = feed.reader.closes :=
      Recorded.closes_readPatiently _ feed.reader buffer
    by_cases hok : (feed.reading buffer).outcome = .ok 0
    · rw [Feed.read_of_ok_zero hreleased hok]
      exact ⟨hreleased, hnext.trans hcloses⟩
    · rw [Feed.read_of_ne_ok_zero hreleased hok]
      exact ⟨hreleased, hnext.trans hcloses⟩
  close {feed} h := by
    obtain ⟨hreleased, hcloses⟩ := h
    have hclose : Reader.close feed
        = { feed with reader := Reader.close feed.reader, released := true } :=
      if_neg (by simp [hreleased])
    rw [hclose]
    refine ⟨rfl, ?_⟩
    show (Reader.close feed.reader).closes = 1
    rw [feed.reader.closes_close, hcloses]
    rfl

/-- From its closing on, whatever is asked of it, a listing is answered at once and is silent: its
source and its position stay as they were. -/
def Listing.ClosesForGood {σ : Type} [Source σ] (l : Listing σ) : Prop :=
  ∀ limit later, ∃ m, l.close.run? (limit + 1) later = some m
    ∧ m.IsSilent l.close.cursor.source l.cursor.position

theorem Listing.closesForGood_of_isTidy {σ : Type} [Source σ] {l : Listing σ}
    (h : l.cursor.IsTidy) : l.ClosesForGood := by
  intro limit later
  have hrest : l.close.cursor.AtRest l.close.cursor.source l.cursor.position :=
    Cursor.atRest_close h
  obtain ⟨m, hrun, hm⟩ := exists_atRest_run? hrest limit later
  exact ⟨m, hrun, isSilent_of_atRest hm⟩

/-- **A source is released once and never touched again.** It has been closed once if closing was
among the requests, and not at all otherwise; dropping the cursor makes up for that. A reader that
is held by a source goes the same way. -/
theorem released_once (limit : Nat) (requests : List Request) :
    (∀ {σ : Type} [Source σ] (s : σ) (l : Listing (Recorded σ)),
      (Listing.mk (.ofSource ⟨s, []⟩) false).run? limit requests = some l →
        l.cursor.source.closes = (if .close ∈ requests then 1 else 0)
          ∧ l.close.cursor.source.closes = 1
          ∧ l.ClosesForGood) ∧
    (∀ {ρ : Type} [Reader ρ] [Patient ρ] (r : ρ) (l : Listing (Feed (Recorded ρ))),
      (Listing.mk (.ofSource ⟨⟨r, []⟩, false, false⟩) false).run? limit requests = some l →
        l.cursor.source.reader.closes = (if .close ∈ requests then 1 else 0)
          ∧ l.close.cursor.source.reader.closes = 1
          ∧ l.ClosesForGood) := by
  have hcount : ∀ closed : Bool, closed = decide (.close ∈ requests) →
      closed.toNat = if .close ∈ requests then 1 else 0 := by
    rintro _ rfl
    by_cases hmem : .close ∈ requests <;> simp [hmem]
  refine ⟨?_, ?_⟩
  · intro σ _ s l hrun
    have hcloses := Listing.tracks_run? tracks_closes rfl hrun
    have hclosed := Listing.closed_run? hrun
    refine ⟨hcloses.trans (hcount _ hclosed), tracks_closes.of_close hcloses, ?_⟩
    exact Listing.closesForGood_of_isTidy
      (Listing.isTidy_run? (fun _ => Nat.lt_irrefl 0) hrun)
  · intro ρ _ _ r l hrun
    have hcloses := Listing.tracks_run? tracks_closes_feed ⟨rfl, rfl⟩ hrun
    have hclosed := Listing.closed_run? hrun
    refine ⟨hcloses.2.trans (hcount _ hclosed), (tracks_closes_feed.of_close hcloses).2, ?_⟩
    exact Listing.closesForGood_of_isTidy
      (Listing.isTidy_run? (fun _ => Nat.lt_irrefl 0) hrun)

/-- Bytes in memory and a failing reader, closed while something is buffered and asked on. -/
theorem released_once_of_requests :
    (∃ l : Listing (Recorded (List UInt8)),
      (Listing.mk (.ofSource ⟨[0x31, 0x20, 0x32], []⟩) false).run? 4
          [.token, .close, .item, .operation .peek, .close] = some l
        ∧ l.cursor.source.closes = 1 ∧ l.close.cursor.source.closes = 1 ∧ l.ClosesForGood) ∧
    (∃ l : Listing (Feed (Recorded Script)),
      (Listing.mk (.ofSource
          ⟨⟨⟨[.data [0x31, 0x20] none, .failure ⟨.other, none⟩]⟩, []⟩, false, false⟩) false).run? 4
          [.item, .token, .operation .next] = some l
        ∧ l.cursor.source.reader.closes = 0 ∧ l.close.cursor.source.reader.closes = 1
        ∧ l.ClosesForGood) := by
  refine ⟨?_, ?_⟩
  · obtain ⟨l, hrun⟩ := Listing.exists_run?_ofSource
      (Recorded.mk ([0x31, 0x20, 0x32] : List UInt8) []) 3 (by decide)
      [.token, .close, .item, .operation .peek, .close]
    exact ⟨l, hrun, (released_once 4 _).1 _ l hrun⟩
  · obtain ⟨l, hrun⟩ := Listing.exists_run?_ofSource
      (Feed.mk (Recorded.mk (Script.mk [.data [0x31, 0x20] none, .failure ⟨.other, none⟩]) [])
        false false) 3 (by decide) [.item, .token, .operation .next]
    exact ⟨l, hrun, (released_once 4 _).2 _ l hrun⟩

end BasicTokens
