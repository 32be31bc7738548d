import BasicTokens.Proofs.Cursor.Release
import BasicTokens.Proofs.Delivery.Faltering
import BasicTokens.Source.Script

/-!
# Everything that can be asked of a feed

Three things can be asked of a feed: whether it has more, to read, and to close. Each read goes
through to the reader, is tried again while the reader is interrupted, and passes on the first
answer that is no interruption (`GivesAfter`). One step decides about availability: it is kept
unless the request ends the feed, which closing does, and a read into a buffer with room that the
reader answers with nothing (`available_perform_iff`). So along any requests it is lost at the first
of these and never regained (`available_run_iff`).

The reader is recorded, so what is asked of it can be counted: one read more than interruptions for
every read of the feed while it holds the reader, none afterwards, and one close.
-/

namespace BasicTokens

/-! ### Interrupted readers -/

section Reader

variable {ρ : Type} [Reader ρ] {n count : Nat} {r : ρ} {buffer : Vector UInt8 n}
  {reading : Reading ρ n}

/-- Interrupted so often in a row, a reader then gives this reading. Every try goes on with the
buffer as the one before it has left it. -/
inductive GivesAfter : Nat → ρ → Vector UInt8 n → Reading ρ n → Prop
  | first {r : ρ} {buffer : Vector UInt8 n} : (Reader.read r buffer).isInterrupted = false →
      GivesAfter 0 r buffer (Reader.read r buffer)
  | again {count : Nat} {r : ρ} {buffer : Vector UInt8 n} {reading : Reading ρ n} :
      (Reader.read r buffer).isInterrupted = true →
      GivesAfter count (Reader.read r buffer).next (Reader.read r buffer).buffer reading →
      GivesAfter (count + 1) r buffer reading

theorem GivesAfter.isInterrupted (h : GivesAfter count r buffer reading) :
    reading.isInterrupted = false := by
  induction h with
  | first hi => exact hi
  | again _ _ ih => exact ih

section Patient

variable [Patient ρ]

theorem GivesAfter.eq_patientReading (h : GivesAfter count r buffer reading) :
    reading = patientReading r buffer := by
  induction h with
  | first hi => exact (patientReading_of_not_interrupted hi).symm
  | again hi _ ih => exact ih.trans (patientReading_of_interrupted hi).symm

theorem exists_givesAfter (r : ρ) (buffer : Vector UInt8 n) :
    ∃ count, GivesAfter count r buffer (patientReading r buffer) := by
  obtain ⟨patience, hpatience⟩ : ∃ k, Patient.patience r = k := ⟨_, rfl⟩
  induction patience using Nat.strongRecOn generalizing r buffer with
  | ind patience ih =>
    cases hi : (Reader.read r buffer).isInterrupted with
    | false =>
      rw [patientReading_of_not_interrupted hi]
      exact ⟨0, .first hi⟩
    | true =>
      have hless := hpatience ▸ Patient.patience_lt r buffer hi
      obtain ⟨count, hcount⟩ := ih _ hless _ _ rfl
      rw [patientReading_of_interrupted hi]
      exact ⟨count + 1, .again hi hcount⟩

end Patient

theorem Recorded.reads_read (r : Recorded ρ) (buffer : Vector UInt8 n) :
    (Reader.read r buffer).next.reads = r.reads + 1 :=
  List.countP_cons_of_pos rfl

/-- For every interruption the reader was asked once, and once more for the reading. -/
theorem GivesAfter.reads {r : Recorded ρ} {reading : Reading (Recorded ρ) n}
    (h : GivesAfter count r buffer reading) : reading.next.reads = r.reads + (count + 1) := by
  induction h with
  | first => exact Recorded.reads_read _ _
  | again _ _ ih =>
    rw [ih, Recorded.reads_read]
    omega

theorem GivesAfter.closes {r : Recorded ρ} {reading : Reading (Recorded ρ) n}
    (h : GivesAfter count r buffer reading) : reading.next.closes = r.closes := by
  induction h with
  | first => exact Recorded.closes_read _ _
  | again _ _ ih => rw [ih, Recorded.closes_read]

end Reader

namespace Feed

variable {ρ : Type} [Reader ρ] [Patient ρ] {feed : Feed ρ}

/-! ### One request -/

/-- What a feed that holds its reader makes of a read: it passes the reading on, and runs dry if the
buffer has room and nothing comes. -/
structure PassesOn (feed : Feed ρ) {n : Nat} (buffer : Vector UInt8 n) (reading : Reading ρ n) :
    Prop where
  outcome : (Reader.read feed buffer).outcome = reading.outcome
  written : (Reader.read feed buffer).buffer = reading.buffer
  reader : (Reader.read feed buffer).next.reader = reading.next
  released : (Reader.read feed buffer).next.released = false
  drained : (Reader.read feed buffer).next.drained = true ↔
    feed.drained = true ∨ 0 < n ∧ reading.outcome = .ok 0

theorem passesOn_reading (h : feed.released = false) {n : Nat} (buffer : Vector UInt8 n) :
    feed.PassesOn buffer (feed.reading buffer) := by
  by_cases hzero : (feed.reading buffer).outcome = .ok 0
  · have hread := read_of_ok_zero h hzero
    exact ⟨by rw [hread]; rfl, by rw [hread]; rfl, by rw [hread]; rfl, by rw [hread]; exact h,
      by rw [hread]; simp [hzero]⟩
  · have hread := read_of_ne_ok_zero h hzero
    exact ⟨by rw [hread]; rfl, by rw [hread]; rfl, by rw [hread]; rfl, by rw [hread]; exact h,
      by rw [hread]; simp [hzero]⟩

theorem read_of_released (h : feed.released = true) {n : Nat} (buffer : Vector UInt8 n) :
    Reader.read feed buffer = ⟨.ok 0, buffer, feed⟩ :=
  if_pos h

theorem close_of_released (h : feed.released = true) : Reader.close feed = feed :=
  if_pos h

theorem close_of_held (h : feed.released = false) :
    Reader.close feed = { feed with reader := Reader.close feed.reader, released := true } :=
  if_neg (by simp [h])

theorem released_close (feed : Feed ρ) : (Reader.close feed).released = true := by
  cases h : feed.released with
  | true => rwa [close_of_released h]
  | false => rw [close_of_held h]

theorem released_read (feed : Feed ρ) {n : Nat} (buffer : Vector UInt8 n) :
    (Reader.read feed buffer).next.released = feed.released := by
  cases h : feed.released with
  | true => rw [read_of_released h, h]
  | false => exact (passesOn_reading h buffer).released

theorem available_iff :
    Source.available feed = true ↔ feed.released = false ∧ feed.drained = false := by
  simp [Source.available]

/-- What can be asked of a feed. -/
inductive Request where
  | available
  | read (n : Nat) (buffer : Vector UInt8 n)
  | close

def perform (feed : Feed ρ) : Request → Feed ρ
  | .available => feed
  | .read _ buffer => (Reader.read feed buffer).next
  | .close => Reader.close feed

/-- The requests behind which a feed has no more: to close it, and to read into a buffer with room
when the reader answers with nothing. -/
def Ends (feed : Feed ρ) : Request → Prop
  | .available => False
  | .read n buffer =>
    0 < n ∧ ∃ count reading, GivesAfter count feed.reader buffer reading ∧ reading.outcome = .ok 0
  | .close => True

theorem ends_read_iff {n : Nat} {buffer : Vector UInt8 n} :
    feed.Ends (.read n buffer) ↔ 0 < n ∧ (feed.reading buffer).outcome = .ok 0 := by
  constructor
  · rintro ⟨hroom, count, reading, hgives, hzero⟩
    rw [hgives.eq_patientReading] at hzero
    exact ⟨hroom, hzero⟩
  · rintro ⟨hroom, hzero⟩
    obtain ⟨count, hgives⟩ := exists_givesAfter feed.reader buffer
    exact ⟨hroom, count, _, hgives, hzero⟩

/-- A request that does not end a feed leaves it as available as it was. -/
theorem available_perform_iff {request : Request} :
    Source.available (feed.perform request) = true ↔
      Source.available feed = true ∧ ¬feed.Ends request := by
  rw [available_iff, available_iff]
  cases request with
  | available => simp [perform, Ends]
  | read n buffer =>
    rw [perform, released_read, ends_read_iff]
    cases h : feed.released with
    | true => simp
    | false =>
      have hdrained := not_congr (passesOn_reading h buffer).drained
      rw [not_or, Bool.not_eq_true, Bool.not_eq_true] at hdrained
      rw [hdrained, and_assoc]
  | close => simp [perform, Ends, released_close]

/-! ### Requests one after the other -/

def run (feed : Feed ρ) (requests : List Request) : Feed ρ :=
  requests.foldl perform feed

theorem run_append (feed : Feed ρ) (requests more : List Request) :
    feed.run (requests ++ more) = (feed.run requests).run more :=
  List.foldl_append

theorem available_run_iff {requests : List Request} :
    Source.available (feed.run requests) = true ↔ Source.available feed = true ∧
      ∀ before request after, requests = before ++ request :: after →
        ¬(feed.run before).Ends request := by
  induction requests generalizing feed with
  | nil =>
    refine ⟨fun h => ⟨h, fun before request after hsplit => ?_⟩, And.left⟩
    cases List.append_eq_nil_iff.1 hsplit.symm |>.2
  | cons first rest ih =>
    rw [run, List.foldl_cons, ← run, ih, available_perform_iff, and_assoc]
    refine and_congr_right fun _ => ⟨?_, fun h => ⟨h [] first rest rfl, ?_⟩⟩
    · rintro ⟨hfirst, hrest⟩ before request after hsplit
      cases before with
      | nil =>
        cases hsplit
        exact hfirst
      | cons other before =>
        cases hsplit
        exact hrest before request after rfl
    · rintro before request after rfl
      exact h (first :: before) request after rfl

theorem released_run_iff {requests : List Request} :
    (feed.run requests).released = true ↔ feed.released = true ∨ .close ∈ requests := by
  induction requests generalizing feed with
  | nil => simp [run]
  | cons first rest ih =>
    rw [run, List.foldl_cons, ← run, ih, List.mem_cons]
    cases first with
    | available => simp [perform]
    | read n buffer => simp [perform, released_read]
    | close => simp [perform, released_close]

/-! ### The reader that is held -/

variable {start feed : Feed (Recorded ρ)}

theorem closes_perform (h : feed.reader.closes = feed.released.toNat) (request : Request) :
    (feed.perform request).reader.closes = (feed.perform request).released.toNat := by
  cases hreleased : feed.released with
  | true =>
    have hsame : feed.perform request = feed := by
      cases request with
      | available => rfl
      | read n buffer => rw [perform, read_of_released hreleased]
      | close => exact close_of_released hreleased
    rwa [hsame]
  | false =>
    cases request with
    | available => exact h
    | read n buffer =>
      obtain ⟨count, hgives⟩ := exists_givesAfter feed.reader buffer
      rw [perform, released_read, (passesOn_reading hreleased buffer).reader, ← h]
      exact hgives.closes
    | close =>
      rw [perform, close_of_held hreleased]
      show (Reader.close feed.reader).closes = 1
      rw [feed.reader.closes_close, h, hreleased]
      rfl

theorem closes_run (h : feed.reader.closes = feed.released.toNat) (requests : List Request) :
    (feed.run requests).reader.closes = (feed.run requests).released.toNat := by
  induction requests generalizing feed with
  | nil => exact h
  | cons first rest ih => exact ih (closes_perform h first)

/-- A feed that begins like this, whatever is asked of it. -/
structure IsOrderly (start : Feed (Recorded ρ)) : Prop where
  available : Source.available start = true
  /-- Availability is lost at the first request that ends the feed, and at no other. -/
  available_iff : ∀ requests, Source.available (start.run requests) = true ↔
    ∀ before request after, requests = before ++ request :: after →
      ¬(start.run before).Ends request
  unavailable : ∀ requests more, Source.available (start.run requests) = false →
    Source.available (start.run (requests ++ more)) = false
  /-- Until it is closed, a read is that of the reader once it is not interrupted any more. -/
  read : ∀ requests, .close ∉ requests → ∀ {n : Nat} (buffer : Vector UInt8 n),
    ∃ count reading, GivesAfter count (start.run requests).reader buffer reading
      ∧ reading.isInterrupted = false
      ∧ (start.run requests).PassesOn buffer reading
      ∧ reading.next.reads = (start.run requests).reader.reads + (count + 1)
  held : ∀ requests, .close ∉ requests → (start.run requests).reader.closes = 0
  /-- Then the reader has been closed once, and a read does nothing at all. -/
  closed : ∀ requests, .close ∈ requests → (start.run requests).reader.closes = 1
    ∧ ∀ {n : Nat} (buffer : Vector UInt8 n),
      Reader.read (start.run requests) buffer = ⟨.ok 0, buffer, start.run requests⟩

/-- **A feed is what its reader is until it is closed or runs dry.** -/
theorem isOrderly_feed (r : ρ) : IsOrderly ⟨⟨r, []⟩, false, false⟩ := by
  let start : Feed (Recorded ρ) := ⟨⟨r, []⟩, false, false⟩
  have hreleased : ∀ requests, (start.run requests).released = true ↔ .close ∈ requests :=
    fun requests => released_run_iff.trans (or_iff_right Bool.false_ne_true)
  have hcloses : ∀ requests, (start.run requests).reader.closes
      = (start.run requests).released.toNat := closes_run rfl
  refine ⟨rfl, fun requests => available_run_iff.trans (and_iff_right rfl), ?_, ?_, ?_, ?_⟩
  · intro requests more hnone
    rw [Bool.eq_false_iff] at hnone ⊢
    rw [run_append, Ne, available_run_iff]
    exact fun h => hnone h.1
  · intro requests hopen n buffer
    have hheld : (start.run requests).released = false := by
      rwa [← Bool.not_eq_true, hreleased]
    obtain ⟨count, hgives⟩ := exists_givesAfter (start.run requests).reader buffer
    exact ⟨count, _, hgives, hgives.isInterrupted, passesOn_reading hheld buffer, hgives.reads⟩
  · intro requests hopen
    have hheld : (start.run requests).released = false := by
      rwa [← Bool.not_eq_true, hreleased]
    rw [hcloses, hheld]
    rfl
  · intro requests hclose
    have hgone := (hreleased requests).2 hclose
    refine ⟨?_, fun buffer => read_of_released hgone buffer⟩
    rw [hcloses, hgone]
    rfl

/-- Behind an interruption a byte is read, a read without room tells nothing, and an empty read into
a buffer with room ends the feed. Closing it twice closes the reader once. -/
example :
    let feed : Feed (Recorded Script) :=
      ⟨⟨⟨[.failure ⟨.interrupted, none⟩, .data [0x31] none]⟩, []⟩, false, false⟩
    let read (n : Nat) : Request := .read n (Vector.replicate n 0)
    Source.available (feed.run [read 2, read 0]) = true
      ∧ (feed.run [read 2, read 0]).reader.reads = 3
      ∧ Source.available (feed.run [read 2, read 0, read 2]) = false
      ∧ (feed.run [read 2, .close, read 2, .close]).reader.reads = 2
      ∧ (feed.run [read 2, .close, read 2, .close]).reader.closes = 1 := by
  decide

end Feed

end BasicTokens
