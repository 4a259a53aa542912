/-
  SignOff/Proofs/Text/Lines.lean
  ==============================
  **Texts kept as lines.**  The bytes of a text are text again (`textOf?_bytesOf`).  In UTF-8
  a byte below 128 stands for one character, so the bytes of a text without a line feed
  contain none either, and what was written line by line is read line by line
  (`lines_written`).  Any content consists of the lines that are read in it, and of no others
  (`splits_iff`).
-/
import SignOff.Text.Lines
import Mathlib.Data.List.Basic

namespace SignOff.Text

/-! ### Bytes of a text -/

theorem textOf?_bytesOf (s : String) : textOf? (bytesOf s) = some s := by
  simp only [textOf?, bytesOf, Array.toArray_toList]
  rw [String.fromUTF8?, dif_pos s.isValidUTF8, String.fromUTF8]

theorem textOf?_eq_some_iff {line : List UInt8} {s : String} :
    textOf? line = some s ↔ bytesOf s = line := by
  constructor
  · intro h
    rw [textOf?, String.fromUTF8?] at h
    split at h
    · rw [← Option.some.inj h]
      rfl
    · cases h
  · rintro rfl
    exact textOf?_bytesOf s

theorem bytesOf_append (s t : String) : bytesOf (s ++ t) = bytesOf s ++ bytesOf t := by
  simp [bytesOf, String.toByteArray_append, ByteArray.data_append]

theorem bytesOf_eq (s : String) : bytesOf s = s.toList.flatMap String.utf8EncodeChar := by
  rw [bytesOf, ← String.utf8Encode_toList, List.utf8Encode, List.data_toByteArray]

/-- A byte below 128 is the whole of its character. -/
theorem toNat_of_mem_utf8EncodeChar {c : Char} {b : UInt8} (hb : b ∈ String.utf8EncodeChar c)
    (hlow : b.toNat < 128) : c.toNat = b.toNat := by
  fun_cases String.utf8EncodeChar c with
  | case1 v hv =>
    have hbyte : b = UInt8.ofNat v := by
      simpa only [String.utf8EncodeChar, v, if_pos hv, List.mem_singleton] using hb
    have hsmall : v ≤ 127 := hv
    show v = b.toNat
    rw [hbyte, UInt8.toNat_ofNat']
    omega
  -- every byte of a longer code has its highest bit set
  | case2 v hv hv₂ =>
    simp only [String.utf8EncodeChar, v, if_neg hv, if_pos hv₂, List.mem_cons, List.not_mem_nil,
      or_false] at hb
    rcases hb with rfl | rfl <;> rw [UInt8.toNat_ofNat'] at hlow <;> omega
  | case3 v hv hv₂ hv₃ =>
    simp only [String.utf8EncodeChar, v, if_neg hv, if_neg hv₂, if_pos hv₃, List.mem_cons,
      List.not_mem_nil, or_false] at hb
    rcases hb with rfl | rfl | rfl <;> rw [UInt8.toNat_ofNat'] at hlow <;> omega
  | case4 v hv hv₂ hv₃ =>
    simp only [String.utf8EncodeChar, v, if_neg hv, if_neg hv₂, if_neg hv₃, List.mem_cons,
      List.not_mem_nil, or_false] at hb
    rcases hb with rfl | rfl | rfl | rfl <;> rw [UInt8.toNat_ofNat'] at hlow <;> omega

/-- A byte below 128 in the bytes of a text is one of its characters. -/
theorem exists_of_mem_bytesOf {s : String} {b : UInt8} (hb : b ∈ bytesOf s)
    (hlow : b.toNat < 128) : ∃ c ∈ s.toList, c.toNat = b.toNat := by
  rw [bytesOf_eq] at hb
  obtain ⟨c, hc, hbc⟩ := List.mem_flatMap.mp hb
  exact ⟨c, hc, toNat_of_mem_utf8EncodeChar hbc hlow⟩

/-! ### Lines -/

/-- The bytes stay together when they are written as a line: there is no line feed among them,
    and nothing at their end that would count as part of the line's end. -/
structure Unbroken (line : List UInt8) : Prop where
  no_feed : lineFeed ∉ line
  no_return : line.getLast? ≠ some carriageReturn

theorem Unbroken.withoutReturn_eq {line : List UInt8} (h : Unbroken line) :
    withoutReturn line = line := if_neg h.no_return

/-- The bytes of a text without control characters stay together. -/
theorem Unbroken.of_text {s : String} (h : ∀ c ∈ s.toList, ' ' ≤ c) : Unbroken (bytesOf s) := by
  have hcontrol : ∀ b ∈ bytesOf s, 32 ≤ b.toNat := by
    intro b hb
    by_contra hlow
    obtain ⟨c, hc, hcode⟩ := exists_of_mem_bytesOf hb (by omega)
    have hblank : 32 ≤ c.toNat := Char.le_def.mp (h c hc)
    omega
  constructor
  · exact fun hmem => absurd (hcontrol _ hmem) (by decide)
  · exact fun hlast => absurd (hcontrol _ (List.mem_of_getLast? hlast)) (by decide)

/-- Up to its line feed everything belongs to the current line. -/
theorem linesFrom_line {line : List UInt8} (hfeed : lineFeed ∉ line) (before rest : List UInt8) :
    linesFrom before (line ++ lineFeed :: rest) = withoutReturn (before ++ line) :: lines rest := by
  induction line generalizing before with
  | nil => simp [linesFrom, lines]
  | cons b line ih =>
    have hb : b ≠ lineFeed := fun h => hfeed (h ▸ List.mem_cons_self)
    have hline := ih (fun h => hfeed (List.mem_cons_of_mem b h)) (before ++ [b])
    rw [List.cons_append, linesFrom, if_neg hb, hline, List.append_assoc, List.singleton_append]

/-- **What was written line by line is read line by line.** -/
theorem lines_written {ls : List (List UInt8)} (h : ∀ line ∈ ls, Unbroken line) :
    lines (ls.flatMap fun line => line ++ [lineFeed]) = ls := by
  induction ls with
  | nil => rfl
  | cons line ls ih =>
    have hline := h line List.mem_cons_self
    rw [List.flatMap_cons, List.append_assoc, List.singleton_append, lines,
      linesFrom_line hline.no_feed, List.nil_append, hline.withoutReturn_eq,
      ih fun l hl => h l (List.mem_cons_of_mem line hl)]

/-- Without a line feed there is one line, if there is any. -/
theorem linesFrom_unended {line : List UInt8} (hfeed : lineFeed ∉ line) (before : List UInt8) :
    linesFrom before line = if (before ++ line).isEmpty then [] else [before ++ line] := by
  induction line generalizing before with
  | nil => rw [linesFrom, List.append_nil]
  | cons b line ih =>
    have hb : b ≠ lineFeed := fun h => hfeed (h ▸ List.mem_cons_self)
    rw [linesFrom, if_neg hb, ih fun h => hfeed (List.mem_cons_of_mem b h), List.append_assoc,
      List.singleton_append]

theorem withoutReturn_concat (line : List UInt8) :
    withoutReturn (line ++ [carriageReturn]) = line := by
  rw [withoutReturn, if_pos List.getLast?_concat, List.dropLast_concat]

/-- The content consists of the lines.  A line ends with a line feed, or with a carriage return
    and a line feed; the last one may end with the content, if it is not empty. -/
inductive Splits : List UInt8 → List (List UInt8) → Prop
  | nil : Splits [] []
  | unended {line : List UInt8} (some : line ≠ []) (no_feed : lineFeed ∉ line) :
    Splits line [line]
  | ended {line rest : List UInt8} {ls : List (List UInt8)} (whole : Unbroken line)
    (more : Splits rest ls) : Splits (line ++ lineFeed :: rest) (line :: ls)
  | returned {line rest : List UInt8} {ls : List (List UInt8)} (no_feed : lineFeed ∉ line)
    (more : Splits rest ls) : Splits (line ++ carriageReturn :: lineFeed :: rest) (line :: ls)

theorem Splits.lines_eq {content : List UInt8} {ls : List (List UInt8)} (h : Splits content ls) :
    lines content = ls := by
  induction h with
  | nil => rfl
  | unended some no_feed =>
    rw [lines, linesFrom_unended no_feed, List.nil_append, if_neg]
    rwa [List.isEmpty_iff]
  | ended whole _ ih =>
    rw [lines, linesFrom_line whole.no_feed, List.nil_append, whole.withoutReturn_eq, ih]
  | @returned line rest ls no_feed _ ih =>
    have hfeed : lineFeed ∉ line ++ [carriageReturn] := by
      rw [List.mem_append, List.mem_singleton]
      exact not_or.mpr ⟨no_feed, by decide⟩
    have hline := linesFrom_line hfeed [] rest
    rw [List.append_assoc, List.singleton_append, List.nil_append] at hline
    rw [lines, hline, withoutReturn_concat, ih]

/-- Every content consists of the lines that are read in it.  The first of them ends at the first
    line feed. -/
theorem splits_lines (content : List UInt8) : Splits content (lines content) := by
  by_cases hfeed : lineFeed ∈ content
  · obtain ⟨line, rest, hcontent, hline⟩ := List.eq_append_cons_of_mem hfeed
    have hshorter : rest.length < content.length := by
      rw [hcontent, List.length_append, List.length_cons]
      omega
    have hrest := splits_lines rest
    rw [hcontent, lines, linesFrom_line hline, List.nil_append]
    by_cases hreturn : line.getLast? = some carriageReturn
    · obtain ⟨line, rfl⟩ := List.getLast?_eq_some_iff.mp hreturn
      rw [withoutReturn_concat, List.append_assoc, List.singleton_append]
      exact .returned (fun h => hline (List.mem_append_left _ h)) hrest
    · have hwhole : Unbroken line := ⟨hline, hreturn⟩
      rw [hwhole.withoutReturn_eq]
      exact .ended hwhole hrest
  · rw [lines, linesFrom_unended hfeed, List.nil_append]
    cases content with
    | nil => exact .nil
    | cons b content => exact .unended (List.cons_ne_nil b content) hfeed
termination_by content.length

/-- **Every content consists of the lines that are read in it, and of no others.** -/
theorem splits_iff {content : List UInt8} {ls : List (List UInt8)} :
    Splits content ls ↔ lines content = ls := by
  constructor
  · exact Splits.lines_eq
  · rintro rfl
    exact splits_lines content

/-- The content is empty or ends with a line feed. -/
def Ended (content : List UInt8) : Prop := content = [] ∨ content.getLast? = some lineFeed

theorem Ended.of_append {before rest : List UInt8} (h : Ended (before ++ lineFeed :: rest)) :
    Ended rest := by
  cases rest with
  | nil => exact .inl rfl
  | cons b rest =>
    rcases h with hnil | hlast
    · exact absurd hnil (by simp)
    · exact .inr (by simpa [List.getLast?_append] using hlast)

/-- A line that is put behind a line feed is one more line. -/
theorem Splits.concat {content line : List UInt8} {ls : List (List UInt8)} (h : Splits content ls)
    (hended : Ended content) (hline : Unbroken line) :
    Splits (content ++ (line ++ [lineFeed])) (ls ++ [line]) := by
  induction h with
  | nil => exact .ended hline .nil
  | unended some no_feed =>
    rcases hended with hnil | hlast
    · exact absurd hnil some
    · exact absurd (List.mem_of_getLast? hlast) no_feed
  | ended whole _ ih =>
    rw [List.append_assoc, List.cons_append, List.cons_append]
    exact .ended whole (ih hended.of_append)
  | @returned first rest ls no_feed _ ih =>
    rw [List.append_assoc, List.cons_append, List.cons_append, List.cons_append]
    have hrest : Ended ((first ++ [carriageReturn]) ++ lineFeed :: rest) := by
      rwa [List.append_assoc, List.singleton_append]
    exact .returned no_feed (ih hrest.of_append)

end SignOff.Text
