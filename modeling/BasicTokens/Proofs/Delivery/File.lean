import BasicTokens.Proofs.Delivery.Reading
import BasicTokens.Source.File

/-!
# Listing a file

A listing without limits gives the items of whatever its source delivers, however the source sets
its bounds (`Cursor.tokens_of_delivers`). A file hands out its contents, so its listing is that of
the contents in memory. A directory hands out nothing and then fails.
-/

namespace BasicTokens

/-! ### Without limits -/

namespace Listing

variable {σ : Type} [Source σ]

theorem poll?_mono {limit limit' : Nat} (hle : limit ≤ limit') {l : Listing σ}
    {polled : Option (Except LexicalError Token) × Listing σ} (h : l.poll? limit = some polled) :
    l.poll? limit' = some polled := by
  unfold poll? at h ⊢
  split at h
  · rename_i hdone
    rwa [if_pos hdone]
  · rename_i hdone
    rw [if_neg hdone]
    obtain ⟨answered, htoken, htake⟩ := Option.map_eq_some_iff.1 h
    rw [Cursor.token?_mono hle htoken, Option.map_some, htake]

theorem collect?_mono {limit limit' : Nat} (hle : limit ≤ limit') {polls polls' : Nat}
    (hpolls : polls ≤ polls') {l : Listing σ}
    {collected : List (Except LexicalError Token) × Listing σ}
    (h : l.collect? limit polls = some collected) : l.collect? limit' polls' = some collected := by
  induction polls generalizing l collected polls' with
  | zero => cases h
  | succ polls ih =>
    obtain ⟨polls', rfl⟩ : ∃ k, polls' = k + 1 := ⟨polls' - 1, by omega⟩
    rw [collect?] at h ⊢
    cases hpoll : l.poll? limit with
    | none =>
      rw [hpoll] at h
      cases h
    | some polled =>
      rw [poll?_mono hle hpoll]
      rw [hpoll] at h
      obtain ⟨item, next⟩ := polled
      cases item with
      | none => exact h
      | some item =>
        obtain ⟨later, hlater, hcollected⟩ := Option.map_eq_some_iff.1 h
        simp only [ih (Nat.le_of_succ_le_succ hpolls) hlater, Option.map_some, hcollected]

theorem collect_of_collect? [Bounded σ] {limit polls : Nat} {l : Listing σ}
    {collected : List (Except LexicalError Token) × Listing σ}
    (h : l.collect? limit polls = some collected) : l.collect = collected := by
  have hown : l.collect? (l.cursor.budget + 1) (l.remaining + 1) = some l.collect :=
    (Option.some_get _).symm
  have hboth := collect?_mono (Nat.le_max_left _ limit) (Nat.le_max_left _ polls) hown
  have hgiven := collect?_mono (Nat.le_max_right (l.cursor.budget + 1) limit)
    (Nat.le_max_right (l.remaining + 1) polls) h
  exact Option.some.inj (hboth.symm.trans hgiven)

end Listing

theorem Cursor.tokens_of_delivers {σ : Type} [Source σ] [Bounded σ] {ending : Ending} {s : σ}
    {bytes : List UInt8} {items : List (Except LexicalError Token)} {last : Position}
    {unread : List Char} (h : Delivers ending s bytes)
    (hlist : Lists ending .start (textOf bytes) items last unread) :
    (ofSource s).tokens.1 = items := by
  obtain ⟨l, hl, -⟩ := Listing.collect?_of_reads hlist (reads_ofSource h) rfl
    (Nat.lt_succ_self _) (Nat.lt_succ_self _)
  rw [tokens, Listing.collect_of_collect? hl]

/-! ### Files and directories -/

namespace OpenFile

theorem handsOut_contents (bytes : List UInt8) : HandsOut .quiet (contents bytes) bytes := by
  refine ⟨fun f rest => f = contents rest, ⟨?_, ?_⟩, rfl⟩
  · rintro _ rest rfl buffer hi
    cases hi
  · rintro _ rest rfl buffer -
    by_cases hrest : rest = []
    · subst hrest
      exact .nothing rfl rfl rfl
    · refine .piece (rest.take capacity) (rest.drop capacity) ?_ (List.take_append_drop _ _).symm
        ?_ ?_ rfl
      · simp [hrest, capacity]
      · rw [List.length_take]
        rfl
      · rw [← take_overlay_take rest buffer]
        simp [Reading.bytes, Reading.count, Reader.read, read]

def directoryFailure : ReadFailure :=
  ⟨.isADirectory, some PathFailure.isADirectory.text⟩

theorem handsOut_directory : HandsOut (.failure directoryFailure) directory [] := by
  refine ⟨fun f rest => f = directory ∧ rest = [], ⟨?_, ?_⟩, rfl, rfl⟩
  · rintro _ _ ⟨rfl, rfl⟩ buffer hi
    cases hi
  · rintro _ _ ⟨rfl, rfl⟩ buffer -
    exact .failure directoryFailure rfl rfl rfl

end OpenFile

theorem Cursor.tokens_of_contents (bytes : List UInt8) :
    (ofSource (Feed.mk (OpenFile.contents bytes) false false)).tokens.1
      = (ofSource bytes).tokens.1 := by
  obtain ⟨last, unread, hlist⟩ := exists_lists_tokens bytes
  exact tokens_of_delivers (delivers_feed (OpenFile.handsOut_contents bytes)) hlist

end BasicTokens
