import BasicTokens.Proofs.Text.Bytes
import BasicTokens.Session.Prompt

/-!
# The lines of an input

An input is cut at its line feeds. What stands before a line feed is a line, without a carriage
return at its end; what stands behind the last line feed is a line as it is, if it is anything at
all (`linesOf`). Since line feeds and carriage returns are ASCII, an input is UTF-8 if and only if
all its lines are (`all_isUTF8_linesOf`).

Taking characters back works on bytes, from the end of what has been typed. In UTF-8 that is the
same as taking back characters (`typed_utf8Of`), since every character begins with the one byte of
it that does not go on with another one.
-/

namespace BasicTokens.Prompt

/-! ### Cutting at line feeds -/

def withoutReturn (line : List UInt8) : List UInt8 :=
  if line.getLast? = some carriageReturn then line.dropLast else line

def remainder (rest : List UInt8) : List (List UInt8) :=
  if rest.isEmpty then [] else [rest]

def linesOf (stdin : List UInt8) : List (List UInt8) :=
  let pieces := Text.pieces lineFeed stdin
  pieces.dropLast.map withoutReturn ++ remainder (pieces.getLastD [])

theorem exists_pieces (stdin : List UInt8) :
    ∃ ended rest, Text.pieces lineFeed stdin = ended ++ [rest] ∧ lineFeed ∉ rest
      ∧ stdin = ended.flatMap (· ++ [lineFeed]) ++ rest
      ∧ rawLines stdin = ended.map (· ++ [lineFeed]) ++ remainder rest := by
  induction stdin with
  | nil => exact ⟨[], [], rfl, List.not_mem_nil, rfl, rfl⟩
  | cons b stdin ih =>
    obtain ⟨ended, rest, hpieces, hrest, hstdin, hraw⟩ := ih
    rw [Text.pieces, rawLines, hpieces, hraw]
    by_cases hb : b = lineFeed
    · refine ⟨[] :: ended, rest, ?_, hrest, ?_, ?_⟩
      · rw [if_pos hb]
        rfl
      · rw [hb, List.flatMap_cons, List.append_assoc, ← hstdin]
        rfl
      · rw [if_pos hb, hb]
        rfl
    · rw [if_neg hb, if_neg hb]
      cases ended with
      | nil =>
        refine ⟨[], b :: rest, rfl, by simp [Ne.symm hb, hrest], by simpa using hstdin, ?_⟩
        cases rest <;> rfl
      | cons line ended =>
        refine ⟨(b :: line) :: ended, rest, rfl, hrest, ?_, rfl⟩
        rw [hstdin]
        rfl

theorem strip_concat (line : List UInt8) : strip (line ++ [lineFeed]) = withoutReturn line := by
  rcases List.eq_nil_or_concat line with rfl | ⟨front, a, rfl⟩
  · rfl
  · rw [strip, withoutReturn, List.reverse_concat, List.concat_eq_append, List.reverse_concat,
      List.getLast?_concat, List.dropLast_concat]
    by_cases ha : a = carriageReturn
    · simp [ha]
    · simp [ha]

theorem strip_of_getLast?_ne {line : List UInt8} (h : line.getLast? ≠ some lineFeed) :
    strip line = line := by
  rcases List.eq_nil_or_concat line with rfl | ⟨front, a, rfl⟩
  · rfl
  · rw [List.concat_eq_append] at h ⊢
    have ha : a ≠ lineFeed := by simpa using h
    rw [strip, List.reverse_concat]
    simp [ha]

/-- Reading to the next line end and dropping it gives the lines of the input. -/
theorem map_strip_rawLines (stdin : List UInt8) : (rawLines stdin).map strip = linesOf stdin := by
  obtain ⟨ended, rest, hpieces, hrest, -, hraw⟩ := exists_pieces stdin
  have hremainder : (remainder rest).map strip = remainder rest := by
    unfold remainder
    split
    · rfl
    · have hlast : rest.getLast? ≠ some lineFeed := mt List.mem_of_getLast? hrest
      rw [List.map_singleton, strip_of_getLast?_ne hlast]
  have hended : (ended.map (· ++ [lineFeed])).map strip = ended.map withoutReturn := by
    rw [List.map_map]
    exact List.map_congr_left fun line _ => strip_concat line
  rw [hraw, List.map_append, hremainder, hended, linesOf, hpieces]
  simp

/-! ### UTF-8 -/

theorem isUTF8_iff {bytes : List UInt8} : isUTF8 bytes = true ↔ ∃ text, bytes = utf8Of text := by
  have hbytes : ByteArray.mk bytes.toArray = bytes.toByteArray := by
    rw [← List.data_toByteArray]
  rw [isUTF8, ByteArray.validateUTF8_eq_true_iff, hbytes]
  constructor
  · rintro ⟨text, htext⟩
    exact ⟨text, List.toByteArray_inj.1 htext⟩
  · rintro ⟨text, rfl⟩
    exact ⟨text, rfl⟩

theorem isUTF8_cut {b : UInt8} (hb : b.toNat < 0x80) (before behind : List UInt8) :
    isUTF8 (before ++ b :: behind) = (isUTF8 before && isUTF8 behind) := by
  rw [Bool.eq_iff_iff, Bool.and_eq_true, isUTF8_iff, isUTF8_iff, isUTF8_iff]
  constructor
  · rintro ⟨text, htext⟩
    obtain ⟨front, back, hfront, hback⟩ := exists_utf8Of_of_cut hb htext.symm
    exact ⟨⟨front, hfront⟩, back, hback⟩
  · rintro ⟨⟨front, rfl⟩, back, rfl⟩
    refine ⟨front ++ Char.ofUInt8 b :: back, ?_⟩
    rw [utf8Of_append, utf8Of_cons, utf8EncodeChar_ofUInt8 hb, List.singleton_append]

theorem isUTF8_concat {b : UInt8} (hb : b.toNat < 0x80) (line : List UInt8) :
    isUTF8 (line ++ [b]) = isUTF8 line := by
  rw [isUTF8_cut hb, show isUTF8 [] = true from isUTF8_iff.2 ⟨[], rfl⟩, Bool.and_true]

theorem isUTF8_withoutReturn (line : List UInt8) : isUTF8 (withoutReturn line) = isUTF8 line := by
  unfold withoutReturn
  split
  · rename_i hlast
    obtain ⟨front, rfl⟩ := List.getLast?_eq_some_iff.1 hlast
    rw [List.dropLast_concat, isUTF8_concat (by decide)]
  · rfl

theorem isUTF8_strip (raw : List UInt8) : isUTF8 (strip raw) = isUTF8 raw := by
  by_cases hlast : raw.getLast? = some lineFeed
  · obtain ⟨line, rfl⟩ := List.getLast?_eq_some_iff.1 hlast
    rw [strip_concat, isUTF8_withoutReturn, isUTF8_concat (by decide)]
  · rw [strip_of_getLast?_ne hlast]

theorem all_isUTF8_linesOf (stdin : List UInt8) : (linesOf stdin).all isUTF8 = isUTF8 stdin := by
  obtain ⟨ended, rest, hpieces, -, hstdin, -⟩ := exists_pieces stdin
  have hremainder : (remainder rest).all isUTF8 = isUTF8 rest := by
    unfold remainder
    split
    · rename_i hrest
      rw [List.isEmpty_iff.1 hrest]
      exact (isUTF8_iff.2 ⟨[], rfl⟩).symm
    · simp
  have hended : isUTF8 (ended.flatMap (· ++ [lineFeed]) ++ rest)
      = (ended.all isUTF8 && isUTF8 rest) := by
    clear hpieces hstdin
    induction ended with
    | nil => rfl
    | cons line ended ih =>
      rw [List.flatMap_cons, List.append_assoc, List.append_assoc, List.singleton_append,
        isUTF8_cut (by decide), ih, List.all_cons, Bool.and_assoc]
  have hreturns : (ended.map withoutReturn).all isUTF8 = ended.all isUTF8 := by
    rw [List.all_map]
    exact congrArg (List.all ended) (funext isUTF8_withoutReturn)
  rw [linesOf, hpieces, List.dropLast_concat, List.getLastD_concat, List.all_append, hremainder,
    hreturns, ← hended, ← hstdin]

/-! ### Backspaces -/

/-- What is left of a text when every backspace has taken back the character before it, if there is
one. -/
def typedText (text : List Char) : List Char :=
  (text.foldl (fun kept c => if c = '\x08' then kept.tail else c :: kept) []).reverse

theorem foldl_of_notMem {line : List UInt8} (h : backspace ∉ line) (kept : List UInt8) :
    line.foldl (fun kept b => if b = backspace then takeBack kept else b :: kept) kept
      = line.reverse ++ kept := by
  induction line generalizing kept with
  | nil => rfl
  | cons b line ih =>
    rw [List.mem_cons, not_or] at h
    rw [List.foldl_cons, if_neg (Ne.symm h.1), ih h.2, List.reverse_cons, List.append_assoc]
    rfl

theorem typed_of_notMem {line : List UInt8} (h : backspace ∉ line) : typed line = line := by
  rw [typed, foldl_of_notMem h, List.append_nil, List.reverse_reverse]

/-- In UTF-8 a character is a byte that begins it and bytes that go on with it. -/
theorem exists_utf8EncodeChar (c : Char) :
    ∃ first more, String.utf8EncodeChar c = first :: more ∧ isContinuation first = false
      ∧ ∀ b ∈ more, isContinuation b = true := by
  have hfirst : ∀ n, (n < 0x80 ∨ 0xC0 ≤ n) → n < 0x100 →
      isContinuation (UInt8.ofNat n) = false := by
    intro n hn hlt
    rw [isContinuation, UInt8.toNat_ofNat', Nat.mod_eq_of_lt hlt, Bool.and_eq_false_iff]
    simp only [decide_eq_false_iff_not]
    omega
  have hmore : ∀ n, isContinuation (UInt8.ofNat (n % 64 + 128)) = true := by
    intro n
    rw [isContinuation, UInt8.toNat_ofNat', Nat.mod_eq_of_lt (by omega), Bool.and_eq_true]
    simp only [decide_eq_true_eq]
    omega
  unfold String.utf8EncodeChar
  dsimp only
  split_ifs
  · exact ⟨_, [], rfl, hfirst _ (by omega) (by omega), fun b hb => absurd hb List.not_mem_nil⟩
  all_goals
    refine ⟨_, _, rfl, hfirst _ (by omega) (by omega), ?_⟩
    simp only [List.forall_mem_cons, hmore, true_and]
    exact fun b hb => absurd hb List.not_mem_nil

theorem takeBack_utf8EncodeChar (c : Char) (kept : List UInt8) :
    takeBack ((String.utf8EncodeChar c).reverse ++ kept) = kept := by
  obtain ⟨first, more, hc, hfirst, hmore⟩ := exists_utf8EncodeChar c
  have hgoing : ∀ back : List UInt8, (∀ b ∈ back, isContinuation b = true) →
      takeBack (back ++ first :: kept) = kept := by
    intro back hback
    induction back with
    | nil => simp [takeBack, hfirst]
    | cons b back ih =>
      rw [List.cons_append, takeBack, if_pos (hback b List.mem_cons_self)]
      exact ih fun d hd => hback d (List.mem_cons_of_mem _ hd)
  rw [hc, List.reverse_cons, List.append_assoc]
  exact hgoing more.reverse fun b hb => hmore b (List.mem_reverse.1 hb)

theorem backspace_notMem_utf8EncodeChar {c : Char} (hc : c ≠ '\x08') :
    backspace ∉ String.utf8EncodeChar c := by
  intro hb
  by_cases hlt : c.toNat < 0x80
  · rw [utf8EncodeChar_of_lt hlt, List.mem_singleton] at hb
    have hcode := congrArg UInt8.toNat hb
    rw [UInt8.toNat_ofNat', Nat.mod_eq_of_lt (by omega)] at hcode
    exact hc (Char.toNat_inj.1 hcode.symm)
  · exact absurd (le_toNat_of_mem_utf8EncodeChar (Nat.le_of_not_lt hlt) hb) (by decide)

theorem foldl_utf8Of (text kept : List Char) :
    (utf8Of text).foldl (fun kept b => if b = backspace then takeBack kept else b :: kept)
        (utf8Of kept.reverse).reverse
      = (utf8Of (text.foldl (fun kept c => if c = '\x08' then kept.tail else c :: kept)
          kept).reverse).reverse := by
  have hbackspace : String.utf8EncodeChar '\x08' = [backspace] :=
    utf8EncodeChar_ofUInt8 (b := backspace) (by decide)
  induction text generalizing kept with
  | nil => rfl
  | cons c text ih =>
    rw [utf8Of_cons, List.foldl_append, List.foldl_cons]
    by_cases hc : c = '\x08'
    · rw [if_pos hc, hc, hbackspace, List.foldl_cons, if_pos rfl, List.foldl_nil, ← ih]
      congr 1
      cases kept with
      | nil => rfl
      | cons d kept =>
        rw [List.reverse_cons, utf8Of_append, List.reverse_append, utf8Of_cons, utf8Of_nil,
          List.append_nil]
        exact takeBack_utf8EncodeChar d _
    · rw [if_neg hc, ← ih, foldl_of_notMem (backspace_notMem_utf8EncodeChar hc)]
      congr 1
      simp

/-- On UTF-8 it is characters that are taken back. -/
theorem typed_utf8Of (text : List Char) : typed (utf8Of text) = utf8Of (typedText text) := by
  have hfold := foldl_utf8Of text []
  rw [List.reverse_nil, utf8Of_nil, List.reverse_nil] at hfold
  rw [typed, typedText, hfold, List.reverse_reverse]

end BasicTokens.Prompt
