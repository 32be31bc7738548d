import BasicTokens.Proofs.Cursor.Passage
import BasicTokens.Proofs.Delivery.Independence

/-!
# Progress

A source need not know a bound on its bytes. But if all its reads together never expose more than
so many (`GivesAtMost`), whatever it says about having more and however often it fails or comes back
empty, then reading it comes to an end. What is buffered and what can still be read never grows
(`HoldsAtMost`), and each character that is moved past lowers it. A call that comes to a decision
has moved past one, since it begins among blanks, and a blank or the first character of a token is
always taken. The other calls have found the end of the input or a failed read.
-/

namespace BasicTokens

/-! ### What reads expose -/

section Reader

variable {ρ : Type} [Reader ρ] {n : Nat} {r : ρ}

def given : List (Vector UInt8 capacity) → ρ → Nat
  | [], _ => 0
  | buffer :: buffers, r => (Reader.read r buffer).count + given buffers (Reader.read r buffer).next

/-- All reads together never expose more than `n` bytes, whatever buffers they are shown. -/
def GivesAtMost (n : Nat) (r : ρ) : Prop :=
  ∀ buffers, given buffers r ≤ n

theorem GivesAtMost.mono {m : Nat} (h : GivesAtMost n r) (hle : n ≤ m) : GivesAtMost m r :=
  fun buffers => Nat.le_trans (h buffers) hle

theorem count_le_of_givesAtMost (h : GivesAtMost n r) (buffer : Vector UInt8 capacity) :
    (Reader.read r buffer).count ≤ n :=
  h [buffer]

theorem givesAtMost_next (h : GivesAtMost n r) (buffer : Vector UInt8 capacity) :
    GivesAtMost (n - (Reader.read r buffer).count) (Reader.read r buffer).next := by
  intro buffers
  have hgiven := h (buffer :: buffers)
  rw [given] at hgiven
  omega

theorem givesAtMost_budget [Bounded ρ] (r : ρ) : GivesAtMost (Bounded.budget r) r := by
  intro buffers
  induction buffers generalizing r with
  | nil => exact Nat.zero_le _
  | cons buffer buffers ih =>
    have hread := Bounded.count_add_budget_le r buffer
    have hrest := ih (Reader.read r buffer).next
    rw [given]
    omega

theorem given_recorded (buffers : List (Vector UInt8 capacity)) (r : Recorded ρ) :
    given buffers r = given buffers r.inner := by
  induction buffers generalizing r with
  | nil => rfl
  | cons buffer buffers ih =>
    rw [given, ih, given]
    rfl

theorem givesAtMost_recorded (h : GivesAtMost n r) (calls : List Call) :
    GivesAtMost n (Recorded.mk r calls) := by
  intro buffers
  rw [given_recorded]
  exact h buffers

end Reader

section Feed

variable {ρ : Type} [Reader ρ] {n : Nat}

theorem givesAtMost_readPatiently {r : ρ} (h : GivesAtMost n r) (retries : Nat)
    (buffer : Vector UInt8 capacity) :
    (readPatiently retries r buffer).count ≤ n ∧
      GivesAtMost (n - (readPatiently retries r buffer).count)
        (readPatiently retries r buffer).next := by
  induction retries generalizing r n buffer with
  | zero => exact ⟨count_le_of_givesAtMost h buffer, givesAtMost_next h buffer⟩
  | succ retries ih =>
    simp only [readPatiently]
    split
    · have hrest := givesAtMost_next h buffer
      obtain ⟨hcount, hnext⟩ := ih hrest (Reader.read r buffer).buffer
      exact ⟨by omega, hnext.mono (by omega)⟩
    · exact ⟨count_le_of_givesAtMost h buffer, givesAtMost_next h buffer⟩

variable [Patient ρ]

theorem givesAtMost_read_feed {feed : Feed ρ} (h : GivesAtMost n feed.reader)
    (buffer : Vector UInt8 capacity) :
    (Reader.read feed buffer).count ≤ n ∧
      GivesAtMost (n - (Reader.read feed buffer).count) (Reader.read feed buffer).next.reader := by
  cases hreleased : feed.released with
  | true =>
    have hread : Reader.read feed buffer = ⟨.ok 0, buffer, feed⟩ := if_pos hreleased
    rw [hread]
    exact ⟨Nat.zero_le n, h⟩
  | false =>
    have hreading := givesAtMost_readPatiently h (Patient.patience feed.reader) buffer
    by_cases hzero : (feed.reading buffer).outcome = .ok 0
    · rw [Feed.read_of_ok_zero hreleased hzero]
      exact hreading
    · rw [Feed.read_of_ne_ok_zero hreleased hzero]
      exact hreading

theorem givesAtMost_feed {feed : Feed ρ} (h : GivesAtMost n feed.reader) : GivesAtMost n feed := by
  intro buffers
  induction buffers generalizing feed n with
  | nil => exact Nat.zero_le n
  | cons buffer buffers ih =>
    obtain ⟨hcount, hnext⟩ := givesAtMost_read_feed h buffer
    have hrest := ih hnext
    rw [given]
    omega

end Feed

/-- Whether an answer says something about the text: a token, or an error other than the end of the
input and a failed read. -/
def isDecision : Except LexicalError Token → Bool
  | .error (.endOfInput _) | .error (.readFailed _ _) => false
  | _ => true

namespace Cursor

variable {σ : Type} [Source σ] {n limit : Nat}

/-! ### What a cursor can still move past -/

/-- What is buffered and what can still be read are at most `n` bytes together. From a closed source
nothing is read any more. -/
def HoldsAtMost (n : Nat) (c : Cursor σ) : Prop :=
  ∃ ahead, c.len - c.pos + ahead ≤ n ∧ (c.closed = false → GivesAtMost ahead c.source)

theorem holdsAtMost_ofSource {s : σ} (h : GivesAtMost n s) : (ofSource s).HoldsAtMost n :=
  ⟨n, Nat.le_of_eq (Nat.zero_add n), fun _ => h⟩

variable {c d : Cursor σ}

theorem holdsAtMost_fill (h : c.HoldsAtMost n) : c.fill.2.HoldsAtMost n := by
  obtain ⟨ahead, hle, hgives⟩ := h
  rcases hfill : c.fill with ⟨result, d⟩
  cases fills_of_fill hfill with
  | unasked => exact ⟨ahead, hle, hgives⟩
  | failed hclosed =>
    refine ⟨ahead, hle, fun _ => ?_⟩
    exact (givesAtMost_next (hgives hclosed) c.buffer).mono (Nat.sub_le _ _)
  | read hclosed =>
    have hcount := count_le_of_givesAtMost (hgives hclosed) c.buffer
    refine ⟨ahead - (Reader.read c.source c.buffer).count, ?_, fun _ => ?_⟩
    · show (Reader.read c.source c.buffer).count - 0 + _ ≤ n
      omega
    · exact givesAtMost_next (hgives hclosed) c.buffer

theorem exists_holdsAtMost_advance (h : c.HoldsAtMost n) (hpos : c.pos < c.len) :
    ∃ m, n = m + 1 ∧ c.advance.HoldsAtMost m := by
  obtain ⟨ahead, hle, hgives⟩ := h
  refine ⟨n - 1, by omega, ahead, ?_, ?_⟩
  · rw [advance, if_pos hpos]
    show c.len - (c.pos + 1) + ahead ≤ n - 1
    omega
  · rwa [closed_advance, source_advance]

theorem HoldsAtMost.mono {m : Nat} (h : c.HoldsAtMost n) (hle : n ≤ m) : c.HoldsAtMost m := by
  obtain ⟨ahead, hahead, hgives⟩ := h
  exact ⟨ahead, Nat.le_trans hahead hle, hgives⟩

theorem isKept_holdsAtMost : IsKept (HoldsAtMost (σ := σ) n) where
  fill h _ := holdsAtMost_fill h
  advance h hpos := by
    obtain ⟨m, rfl, hm⟩ := exists_holdsAtMost_advance h hpos
    exact hm.mono (Nat.le_succ m)
  note _ h := h

theorem holdsAtMost_close (h : c.HoldsAtMost n) : c.close.HoldsAtMost n := by
  by_cases hclosed : c.closed = true
  · rwa [close_of_closed hclosed]
  · refine ⟨0, ?_, fun hopen => ?_⟩
    · rw [close, if_neg hclosed]
      exact Nat.zero_le n
    · rw [closed_close] at hopen
      cases hopen

/-! ### Calls -/

theorem isSome_scan?_of_holdsAtMost (h : c.HoldsAtMost n) (hlimit : n < limit) (scan : Scan) :
    (c.scan? limit scan).isSome = true := by
  induction limit generalizing scan c n with
  | zero => omega
  | succ limit ih =>
    rw [scan?]
    split
    · rfl
    · rfl
    · rename_i hpeek
      have hd := isKept_holdsAtMost.peek? h hpeek
      obtain ⟨m, rfl, hm⟩ := exists_holdsAtMost_advance hd (pos_lt_len_of_peek? hpeek)
      split
      · exact ih hm (by omega) _
      · rfl
      · rfl

theorem isSome_token?_of_holdsAtMost (h : c.HoldsAtMost n) (hlimit : n < limit) :
    (c.token? limit).isSome = true := by
  rw [token?, Option.isSome_map]
  exact isSome_scan?_of_holdsAtMost h hlimit _

/-- A call that comes to a decision goes on behind a first character. -/
theorem exists_scan?_of_isDecision {result : Except LexicalError Token}
    (h : c.token? limit = some (result, d)) (hresult : isDecision result = true) :
    ∃ ch k rest scan e, c.peek? = (.ok (some ch), k) ∧
      k.advance.scan? rest scan = some (result, e) ∧ d = e.note (.ofResult result) := by
  rw [token?, Option.map_eq_some_iff] at h
  obtain ⟨⟨_, e⟩, hscan, hnote⟩ := h
  cases hnote
  cases limit with
  | zero => cases hscan
  | succ limit =>
    rw [scan?] at hscan
    split at hscan
    · rename_i hpeek
      cases hscan
      obtain ⟨cause, rfl⟩ := exists_cause_of_peek? hpeek
      cases hresult
    · cases hscan
      cases hresult
    · rename_i ch k hpeek
      exact ⟨ch, k, limit, _, e, hpeek, hscan, rfl⟩

theorem exists_passes_of_isDecision {c d : Cursor (Recorded σ)}
    {result : Except LexicalError Token} (hlen : c.len ≤ capacity)
    (h : c.token? limit = some (result, d)) (hresult : isDecision result = true) :
    ∃ first more, c.Passes (first :: more) d := by
  obtain ⟨ch, k, rest, scan, e, hpeek, hscan, rfl⟩ := exists_scan?_of_isDecision h hresult
  have hfirst := passes_advance_of_peek? hlen hpeek
  obtain ⟨more, hmore, -⟩ := exists_run_of_scan? hfirst.len_le hscan
  exact ⟨ch, more, (hfirst.trans hmore).note _⟩

theorem exists_holdsAtMost_of_isDecision {result : Except LexicalError Token}
    (hc : c.HoldsAtMost n) (h : c.token? limit = some (result, d))
    (hresult : isDecision result = true) : ∃ m, n = m + 1 ∧ d.HoldsAtMost m := by
  obtain ⟨ch, k, rest, scan, e, hpeek, hscan, rfl⟩ := exists_scan?_of_isDecision h hresult
  have hk := isKept_holdsAtMost.peek? hc hpeek
  obtain ⟨m, rfl, hm⟩ := exists_holdsAtMost_advance hk (pos_lt_len_of_peek? hpeek)
  exact ⟨m, rfl, isKept_holdsAtMost.note _ (isKept_holdsAtMost.scan? hm hscan)⟩

theorem exists_calls?_of_holdsAtMost (h : c.HoldsAtMost n) (hlimit : n < limit) (calls : Nat) :
    ∃ results, c.calls? limit calls = some results ∧
      (results.map Prod.fst).countP isDecision ≤ n := by
  induction calls generalizing c n with
  | zero => exact ⟨[], rfl, Nat.zero_le n⟩
  | succ calls ih =>
    obtain ⟨⟨result, d⟩, htoken⟩ :=
      Option.isSome_iff_exists.1 (isSome_token?_of_holdsAtMost h hlimit)
    rw [calls?, htoken]
    cases hresult : isDecision result with
    | true =>
      obtain ⟨m, rfl, hd⟩ := exists_holdsAtMost_of_isDecision h htoken hresult
      obtain ⟨results, hcalls, hcount⟩ := ih hd (by omega)
      refine ⟨(result, d.position) :: results, by simp [hcalls], ?_⟩
      rw [List.map_cons, List.countP_cons_of_pos hresult]
      omega
    | false =>
      obtain ⟨results, hcalls, hcount⟩ := ih (isKept_holdsAtMost.token? h htoken) hlimit
      refine ⟨(result, d.position) :: results, by simp [hcalls], ?_⟩
      rwa [List.map_cons, List.countP_cons_of_neg (by simp [hresult])]

end Cursor

namespace Listing

variable {σ : Type} [Source σ] {n limit : Nat}

theorem exists_collect?_of_holdsAtMost {c : Cursor σ} (h : c.HoldsAtMost n) (hlimit : n < limit)
    {polls : Nat} (hpolls : n + 1 < polls) :
    ∃ items m, (Listing.mk c false).collect? limit polls = some (items, m) ∧
      items.length ≤ n + 1 := by
  induction polls generalizing c n with
  | zero => omega
  | succ polls ih =>
    obtain ⟨⟨item, m⟩, hpoll⟩ := Option.isSome_iff_exists.1 (isSome_poll?_of_isSome_token?
      (l := Listing.mk c false) (Cursor.isSome_token?_of_holdsAtMost h hlimit))
    cases polled_of_poll? hpoll with
    | unasked => exact ⟨[], _, collect?_of_none hpoll polls, Nat.zero_le _⟩
    | ended => exact ⟨[], _, collect?_of_none hpoll polls, Nat.zero_le _⟩
    | @failed e d =>
      obtain ⟨polls, rfl⟩ : ∃ k, polls = k + 1 := ⟨polls - 1, by omega⟩
      have hrest := collect?_of_none (poll?_of_failed d limit) polls
      exact ⟨_, _, collect?_of_some hpoll hrest, Nat.succ_le_succ (Nat.zero_le n)⟩
    | token _ htoken =>
      obtain ⟨k, rfl, hd⟩ := Cursor.exists_holdsAtMost_of_isDecision h htoken rfl
      obtain ⟨items, m, hrest, hlength⟩ := ih hd (by omega) (by omega)
      exact ⟨_, m, collect?_of_some hpoll hrest, Nat.succ_le_succ hlength⟩

/-- Under this limit every call returns. A call that comes to a decision has moved past something,
at most `n` calls do, and the listing stops behind `n + 1` items at the latest. -/
structure MakesProgress (n limit : Nat) (l : Listing (Recorded σ)) : Prop where
  token? : ∃ result d, l.cursor.token? limit = some (result, d) ∧
    (isDecision result = true → ∃ first more, l.cursor.Passes (first :: more) d)
  calls? : ∀ calls, ∃ results, l.cursor.calls? limit calls = some results ∧
    (results.map Prod.fst).countP isDecision ≤ n
  collect? : ∀ polls, n + 1 < polls → ∃ items m, l.collect? limit polls = some (items, m) ∧
    items.length ≤ n + 1

theorem makesProgress_of_holdsAtMost {l : Listing (Recorded σ)} (hlen : l.cursor.len ≤ capacity)
    (h : l.cursor.HoldsAtMost n) (hlimit : n < limit) : l.MakesProgress n limit where
  token? := by
    obtain ⟨⟨result, d⟩, htoken⟩ :=
      Option.isSome_iff_exists.1 (Cursor.isSome_token?_of_holdsAtMost h hlimit)
    exact ⟨result, d, htoken, Cursor.exists_passes_of_isDecision hlen htoken⟩
  calls? := Cursor.exists_calls?_of_holdsAtMost h hlimit
  collect? polls hpolls := by
    obtain ⟨c, failed⟩ := l
    cases failed with
    | true =>
      obtain ⟨polls, rfl⟩ : ∃ k, polls = k + 1 := ⟨polls - 1, by omega⟩
      exact ⟨[], _, collect?_of_none (poll?_of_failed c limit) polls, Nat.zero_le _⟩
    | false => exact exists_collect?_of_holdsAtMost h hlimit hpolls

theorem exists_makesProgress {s : σ} (h : GivesAtMost n s) (hlimit : n < limit)
    (requests : List Request) :
    ∃ l, (Listing.mk (.ofSource (Recorded.mk s [])) false).run? limit requests = some l ∧
      l.MakesProgress n limit := by
  have hstart := Cursor.holdsAtMost_ofSource (givesAtMost_recorded h [])
  obtain ⟨l, hrun, hl⟩ : ∃ l, (Listing.mk _ false).run? limit requests = some l ∧
      l.cursor.HoldsAtMost n :=
    exists_run?_of_isKept Cursor.isKept_holdsAtMost (fun _ => Cursor.holdsAtMost_close)
      (fun hc => Cursor.isSome_token?_of_holdsAtMost hc hlimit) hstart
  exact ⟨l, hrun, makesProgress_of_holdsAtMost (len_le_of_run? hrun) hl hlimit⟩

end Listing

/-- **Reading a text comes to an end.** If all reads of a source together expose at most `n` bytes,
every call returns and makes progress, whatever was asked before. The same holds of a reader. -/
theorem makesProgress_of_givesAtMost (n limit : Nat) (hlimit : n < limit)
    (requests : List Request) :
    (∀ {σ : Type} [Source σ] (s : σ), GivesAtMost n s →
      ∃ l, (Listing.mk (.ofSource (Recorded.mk s [])) false).run? limit requests = some l ∧
        l.MakesProgress n limit) ∧
    (∀ {ρ : Type} [Reader ρ] [Patient ρ] (r : ρ), GivesAtMost n r →
      ∃ l, (Listing.mk (.ofSource (Recorded.mk (Feed.mk r false false) [])) false).run? limit
          requests = some l ∧
        l.MakesProgress n limit) := by
  refine ⟨?_, ?_⟩
  · intro σ _ s h
    exact Listing.exists_makesProgress h hlimit requests
  · intro ρ _ _ r h
    have hfeed : GivesAtMost n (Feed.mk r false false) := givesAtMost_feed h
    exact Listing.exists_makesProgress hfeed hlimit requests

/-- A source that says that it has more for ever, comes back empty, reports more than it wrote and
fails; and a reader that is interrupted. -/
theorem makesProgress_of_lying_source :
    (∃ l, (Listing.mk (.ofSource (Recorded.mk (Announced.mk
          ⟨[.data [] none, .data [0x40] (some 2), .failure ⟨.other, none⟩]⟩ [true] 0) []))
          false).run? 5 [.token, .operation .peek, .item] = some l ∧
        l.MakesProgress 4 5) ∧
    (∃ l, (Listing.mk (.ofSource (Recorded.mk (Feed.mk
          (Script.mk [.data [0x31] none, .failure ⟨.interrupted, none⟩]) false false) []))
          false).run? 5 [.token, .operation .peek, .item] = some l ∧
        l.MakesProgress 4 5) := by
  refine ⟨?_, ?_⟩
  · have hgives : GivesAtMost 4 (Announced.mk
        ⟨[.data [] none, .data [0x40] (some 2), .failure ⟨.other, none⟩]⟩ [true] 0) :=
      givesAtMost_budget _
    exact (makesProgress_of_givesAtMost 4 5 (by decide) _).1 _ hgives
  · have hgives : GivesAtMost 4 (Script.mk
        [.data [0x31] none, .failure ⟨.interrupted, none⟩]) :=
      (givesAtMost_budget _).mono (by decide)
    exact (makesProgress_of_givesAtMost 4 5 (by decide) _).2 _ hgives

end BasicTokens
