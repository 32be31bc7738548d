import BasicTokens.Proofs.Number.Layout
import BasicTokens.Proofs.Text.OneLine

/-!
# Texts that can be told apart

What is shown is put together from parts: positions, quoted text, and text as it was read. The parts
can be had back from the whole. Where one part ends is known either from a character that does not
occur in it (`cut_first`), or from one that does not occur in what comes behind it (`cut_last`); and
the escapes in a quoted text are a prefix code (`Text.escape_append_inj`), so each of them tells
itself where it ends.
-/

namespace BasicTokens

/-! ### Cutting -/

/-- The first occurrence of a character cuts a text in only one way. -/
theorem cut_first {cut : Char} {a a' b b' : List Char} (ha : cut ∉ a) (ha' : cut ∉ a')
    (h : a ++ cut :: b = a' ++ cut :: b') : a = a' ∧ b = b' := by
  induction a generalizing a' with
  | nil =>
    cases a' with
    | nil => exact ⟨rfl, (List.cons.inj h).2⟩
    | cons c a' =>
      have hcut := (List.cons.inj h).1
      exact absurd (hcut ▸ List.mem_cons_self) ha'
  | cons c a ih =>
    cases a' with
    | nil =>
      have hcut := (List.cons.inj h).1
      exact absurd (hcut ▸ List.mem_cons_self) ha
    | cons c' a' =>
      obtain ⟨rfl, hrest⟩ := List.cons.inj h
      obtain ⟨rfl, hb⟩ :=
        ih (mt (List.mem_cons_of_mem c) ha) (mt (List.mem_cons_of_mem c) ha') hrest
      exact ⟨rfl, hb⟩

theorem cut_last {cut : Char} {a a' b b' : List Char} (hb : cut ∉ b) (hb' : cut ∉ b')
    (h : a ++ cut :: b = a' ++ cut :: b') : a = a' ∧ b = b' := by
  have hreverse : b.reverse ++ cut :: a.reverse = b'.reverse ++ cut :: a'.reverse := by
    simpa using congrArg List.reverse h
  obtain ⟨hback, hfront⟩ := cut_first (mt List.mem_reverse.1 hb) (mt List.mem_reverse.1 hb')
    hreverse
  exact ⟨List.reverse_inj.1 hfront, List.reverse_inj.1 hback⟩

/-! ### Digits -/

theorem digitChar_inj {n m : Nat} (hn : n < 16) (hm : m < 16) (h : n.digitChar = m.digitChar) :
    n = m := by
  have hall : ∀ n < 16, ∀ m < 16, n.digitChar = m.digitChar → n = m := by decide
  exact hall n hn m hm h

theorem toDigits_inj {b n m : Nat} (hb : 1 < b) (hle : b ≤ 16)
    (h : Nat.toDigits b n = Nat.toDigits b m) : n = m := by
  have hdigit : ∀ k, k % b < 16 := fun k =>
    Nat.lt_of_lt_of_le (Nat.mod_lt k (Nat.lt_trans Nat.one_pos hb)) hle
  induction n using Nat.strongRecOn generalizing m with
  | ind n ih =>
    rcases Nat.lt_or_ge n b with hn | hn <;> rcases Nat.lt_or_ge m b with hm | hm
    · rw [Nat.toDigits_of_lt_base hn, Nat.toDigits_of_lt_base hm, List.singleton_inj] at h
      exact digitChar_inj (Nat.lt_of_lt_of_le hn hle) (Nat.lt_of_lt_of_le hm hle) h
    · rw [Nat.toDigits_of_lt_base hn, Nat.toDigits_of_base_le hb hm] at h
      have hlength := congrArg List.length h
      have hpos := Nat.length_toDigits_pos (b := b) (n := m / b)
      rw [List.length_singleton, List.length_append, List.length_singleton] at hlength
      omega
    · rw [Nat.toDigits_of_base_le hb hn, Nat.toDigits_of_lt_base hm] at h
      have hlength := congrArg List.length h
      have hpos := Nat.length_toDigits_pos (b := b) (n := n / b)
      rw [List.length_singleton, List.length_append, List.length_singleton] at hlength
      omega
    · rw [Nat.toDigits_of_base_le hb hn, Nat.toDigits_of_base_le hb hm] at h
      obtain ⟨hfront, hlast⟩ := List.append_inj' h rfl
      have hquotient := ih (n / b) (Nat.div_lt_self (by omega) hb) hfront
      have hremainder := digitChar_inj (hdigit n) (hdigit m) (List.singleton_inj.1 hlast)
      rw [← Nat.div_add_mod n b, ← Nat.div_add_mod m b, hquotient, hremainder]

theorem toString_int_inj {n m : Int} (h : (toString n).toList = (toString m).toList) : n = m := by
  have hdigits : ∀ k, '-' ∉ Nat.toDigits 10 k := fun k hmem =>
    absurd (Numeral.isDigit_of_mem_toDigits hmem) (by decide)
  have hsign : ∀ k : Int, '-' ∈ (toString k).toList ↔ k < 0 := by
    intro k
    rw [toList_toString_int]
    split <;> simp_all
  have hnegative : n < 0 ↔ m < 0 := by rw [← hsign, ← hsign, h]
  have habs : n.natAbs = m.natAbs := by
    rw [toList_toString_int, toList_toString_int] at h
    simp only [hnegative] at h
    exact toDigits_inj (by decide) (by decide) (List.append_cancel_left h)
  omega

/-! ### Positions -/

namespace Position

theorem toList_text (p : Position) :
    p.text.toList = Nat.toDigits 10 p.row ++ ':' :: Nat.toDigits 10 p.column := by
  simp only [text, Nat.toString_eq_ofList_toDigits, String.toList_append, String.toList_ofList]
  exact List.append_assoc _ [':'] _

theorem notMem_text {c : Char} (hdigit : c.isDigit = false) (hcolon : c ≠ ':') (p : Position) :
    c ∉ p.text.toList := by
  have hdigits : ∀ n, c ∉ Nat.toDigits 10 n := by
    intro n hmem
    rw [Numeral.isDigit_of_mem_toDigits hmem] at hdigit
    cases hdigit
  rw [toList_text, List.mem_append, List.mem_cons]
  rintro (hmem | hmem | hmem)
  · exact hdigits _ hmem
  · exact hcolon hmem
  · exact hdigits _ hmem

theorem text_inj {p q : Position} (h : p.text = q.text) : p = q := by
  have hcolon : ∀ n, ':' ∉ Nat.toDigits 10 n := fun n hmem =>
    absurd (Numeral.isDigit_of_mem_toDigits hmem) (by decide)
  have hlist := congrArg String.toList h
  rw [toList_text, toList_text] at hlist
  obtain ⟨hrow, hcolumn⟩ := cut_first (hcolon _) (hcolon _) hlist
  have hrow' := toDigits_inj (by decide) (by decide) hrow
  have hcolumn' := toDigits_inj (by decide) (by decide) hcolumn
  cases p
  cases q
  simp_all

theorem span_inj {first behind first' behind' : Position}
    (h : first.text.toList ++ '-' :: behind.text.toList
      = first'.text.toList ++ '-' :: behind'.text.toList) :
    first = first' ∧ behind = behind' := by
  have hdash : ∀ p : Position, '-' ∉ p.text.toList := notMem_text (by decide) (by decide)
  obtain ⟨hfirst, hbehind⟩ := cut_first (hdash _) (hdash _) h
  exact ⟨text_inj (String.toList_inj.1 hfirst), text_inj (String.toList_inj.1 hbehind)⟩

end Position

/-! ### Quoted text -/

namespace Text

/-- The escapes of one character behind the backslash, with what they stand for. -/
def shortEscapes (mark : Char) : List (Char × Char) :=
  [(mark, mark), ('\\', '\\'), ('n', '\n'), ('r', '\r'), ('t', '\t'), ('0', '\x00')]

theorem escape_eq_or (mark c : Char) :
    (∃ x, (x, c) ∈ shortEscapes mark ∧ escape mark c = ['\\', x]) ∨ escape mark c = byNumber c
      ∨ c ≠ '\\' ∧ escape mark c = [c] := by
  unfold escape
  split
  · rename_i hc
    rcases hc with rfl | rfl
    · exact .inl ⟨c, by simp [shortEscapes], rfl⟩
    · exact .inl ⟨'\\', by simp [shortEscapes], rfl⟩
  rename_i hmark
  split
  · rename_i hc
    exact .inl ⟨'n', by simp [shortEscapes, hc], rfl⟩
  split
  · rename_i hc
    exact .inl ⟨'r', by simp [shortEscapes, hc], rfl⟩
  split
  · rename_i hc
    exact .inl ⟨'t', by simp [shortEscapes, hc], rfl⟩
  split
  · rename_i hc
    exact .inl ⟨'0', by simp [shortEscapes, hc], rfl⟩
  split
  · exact .inr (.inl rfl)
  · exact .inr (.inr ⟨fun hc => hmark (.inr hc), rfl⟩)

def IsMark (mark : Char) : Prop :=
  mark = '\x22' ∨ mark = '\x27'

variable {mark : Char}

theorem shortEscapes_inj (hmark : IsMark mark) {x c c' : Char} (h : (x, c) ∈ shortEscapes mark)
    (h' : (x, c') ∈ shortEscapes mark) : c = c' := by
  simp only [shortEscapes, List.mem_cons, Prod.mk.injEq, List.not_mem_nil, or_false] at h h'
  rcases hmark with rfl | rfl <;>
    rcases h with ⟨rfl, rfl⟩ | ⟨rfl, rfl⟩ | ⟨rfl, rfl⟩ | ⟨rfl, rfl⟩ | ⟨rfl, rfl⟩ | ⟨rfl, rfl⟩ <;>
    simpa [eq_comm] using h'

theorem not_u_shortEscapes (hmark : IsMark mark) (c : Char) : ('u', c) ∉ shortEscapes mark := by
  rcases hmark with rfl | rfl <;> simp [shortEscapes]

theorem byNumber_append_inj {c c' : Char} {rest rest' : List Char}
    (h : byNumber c ++ rest = byNumber c' ++ rest') : c = c' ∧ rest = rest' := by
  simp only [byNumber, List.cons_append, List.append_assoc, List.cons.injEq, true_and,
    List.nil_append] at h
  have hbrace : ∀ n, '\x7d' ∉ Nat.toDigits 16 n :=
    notMem_toDigits (by decide) fun _ => (Nat.digitChar_ne '\x7d' (by decide)).symm
  obtain ⟨hdigits, hrest⟩ := cut_first (hbrace _) (hbrace _) h
  exact ⟨Char.toNat_inj.1 (toDigits_inj (by decide) (by decide) hdigits), hrest⟩

/-- **Escapes are a prefix code**: a text that begins with one begins with no other. -/
theorem escape_append_inj (hmark : IsMark mark) {c c' : Char} {rest rest' : List Char}
    (h : escape mark c ++ rest = escape mark c' ++ rest') : c = c' ∧ rest = rest' := by
  rcases escape_eq_or mark c with ⟨x, hx, hc⟩ | hc | ⟨hslash, hc⟩ <;>
    rcases escape_eq_or mark c' with ⟨x', hx', hc'⟩ | hc' | ⟨hslash', hc'⟩ <;>
    rw [hc, hc'] at h
  · obtain ⟨rfl, hrest⟩ : x = x' ∧ rest = rest' := by simpa using h
    exact ⟨shortEscapes_inj hmark hx hx', hrest⟩
  · obtain ⟨rfl, -⟩ : x = 'u' ∧ _ := by simpa [byNumber] using h
    exact absurd hx (not_u_shortEscapes hmark c)
  · exact absurd (List.cons.inj h).1.symm hslash'
  · obtain ⟨rfl, -⟩ : 'u' = x' ∧ _ := by simpa [byNumber] using h
    exact absurd hx' (not_u_shortEscapes hmark c')
  · exact byNumber_append_inj h
  · exact absurd (List.cons.inj h).1.symm hslash'
  · exact absurd (List.cons.inj h).1 hslash
  · exact absurd (List.cons.inj h).1 hslash
  · exact List.cons.inj h

theorem escape_ne_nil (mark c : Char) : escape mark c ≠ [] := by
  rcases escape_eq_or mark c with ⟨x, -, hc⟩ | hc | ⟨-, hc⟩ <;> rw [hc]
  · exact List.cons_ne_nil _ _
  · exact List.cons_ne_nil _ _
  · exact List.cons_ne_nil _ _

theorem flatMap_escape_inj (hmark : IsMark mark) {cs ds : List Char}
    (h : cs.flatMap (escape mark) = ds.flatMap (escape mark)) : cs = ds := by
  induction cs generalizing ds with
  | nil =>
    cases ds with
    | nil => rfl
    | cons d ds =>
      rw [List.flatMap_nil, List.flatMap_cons] at h
      exact absurd (List.append_eq_nil_iff.1 h.symm).1 (escape_ne_nil mark d)
  | cons c cs ih =>
    cases ds with
    | nil =>
      rw [List.flatMap_nil, List.flatMap_cons] at h
      exact absurd (List.append_eq_nil_iff.1 h).1 (escape_ne_nil mark c)
    | cons d ds =>
      rw [List.flatMap_cons, List.flatMap_cons] at h
      obtain ⟨rfl, hrest⟩ := escape_append_inj hmark h
      rw [ih hrest]

theorem quoteWith_inj (hmark : IsMark mark) {cs ds : List Char}
    (h : quoteWith mark cs = quoteWith mark ds) : cs = ds := by
  simp only [quoteWith, List.cons.injEq, true_and, List.append_cancel_right_eq] at h
  exact flatMap_escape_inj hmark h

theorem quote_inj {s t : String} (h : quote s = quote t) : s = t := by
  have hlist := congrArg String.toList h
  rw [quote, quote, String.toList_ofList, String.toList_ofList] at hlist
  exact String.toList_inj.1 (quoteWith_inj (.inl rfl) hlist)

end Text

end BasicTokens
