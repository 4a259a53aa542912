/-
  SignOff/Proofs/Json/Reading.lean
  ================================
  **What is printed is read back.**  The two layouts differ in the blanks between the parts
  and in nothing else (`Layout`), and the reader skips blanks.  So one argument covers both:
  the reader makes of a printed value the value itself and leaves what follows it
  (`Layout.value?_chars`).  The value must be `Plain`: it has no string that is no text, and
  no number but integers.

  The reader is given more steps than there are characters.  Each part of a value is shorter
  than the value by at least the bracket or comma in front of it, which pays for the step.
-/
import SignOff.Proofs.Json.Leaves

namespace SignOff.Json

open Text

/-! ### Layouts -/

/-- What is printed between the parts of a value: in front of an item, a field or a closing
    bracket at some depth, and behind a colon. -/
structure Layout where
  line : Nat → List Char
  colon : List Char
  line_blank : ∀ depth, ∀ c ∈ line depth, isSpace c = true
  colon_blank : ∀ c ∈ colon, isSpace c = true

namespace Layout

/-- Nothing is printed between the parts. -/
def tight : Layout where
  line _ := []
  colon := []
  line_blank _ _ h := by cases h
  colon_blank _ h := by cases h

/-- Every item and field has a line of its own. -/
def wide : Layout where
  line := newline
  colon := [' ']
  line_blank depth c h := by
    rcases List.mem_cons.mp h with rfl | h
    · rfl
    · rw [List.eq_of_mem_replicate h]
      rfl
  colon_blank c h := by
    rw [List.mem_singleton.mp h]
    rfl

mutual

/-- The value at a depth. -/
def chars (l : Layout) (depth : Nat) : Json → List Char
  | .arr [] => ['[', ']']
  | .arr (j :: rest) =>
    '[' :: (l.line (depth + 1) ++ (l.chars (depth + 1) j ++ l.items depth rest))
  | .obj [] => ['{', '}']
  | .obj ((k, j) :: rest) =>
    '{' :: (l.line (depth + 1) ++ (quoted k ++
      ':' :: (l.colon ++ (l.chars (depth + 1) j ++ l.fields depth rest))))
  | j => leaf j

/-- The items after the first, with the closing bracket. -/
def items (l : Layout) (depth : Nat) : List Json → List Char
  | [] => l.line depth ++ [']']
  | j :: rest =>
    ',' :: (l.line (depth + 1) ++ (l.chars (depth + 1) j ++ l.items depth rest))

/-- The fields after the first, with the closing brace. -/
def fields (l : Layout) (depth : Nat) : List (String × Json) → List Char
  | [] => l.line depth ++ ['}']
  | (k, j) :: rest =>
    ',' :: (l.line (depth + 1) ++ (quoted k ++
      ':' :: (l.colon ++ (l.chars (depth + 1) j ++ l.fields depth rest))))

end

mutual

theorem compactChars_eq (depth : Nat) : ∀ j, compactChars j = tight.chars depth j
  | .null | .bool _ | .int _ | .real _ | .str _ | .garbled => rfl
  | .arr [] => rfl
  | .arr (j :: rest) => by
    rw [compactChars, chars, compactChars_eq (depth + 1) j, compactItems_eq depth rest]
    rfl
  | .obj [] => rfl
  | .obj ((k, j) :: rest) => by
    rw [compactChars, chars, compactChars_eq (depth + 1) j, compactFields_eq depth rest]
    rfl

theorem compactItems_eq (depth : Nat) : ∀ js, compactItems js = tight.items depth js
  | [] => rfl
  | j :: rest => by
    rw [compactItems, items, compactChars_eq (depth + 1) j, compactItems_eq depth rest]
    rfl

theorem compactFields_eq (depth : Nat) : ∀ fs, compactFields fs = tight.fields depth fs
  | [] => rfl
  | (k, j) :: rest => by
    rw [compactFields, fields, compactChars_eq (depth + 1) j, compactFields_eq depth rest]
    rfl

end

mutual

theorem prettyChars_eq (depth : Nat) : ∀ j, prettyChars depth j = wide.chars depth j
  | .null | .bool _ | .int _ | .real _ | .str _ | .garbled => rfl
  | .arr [] => rfl
  | .arr (j :: rest) => by
    rw [prettyChars, chars, prettyChars_eq (depth + 1) j, prettyItems_eq depth rest,
      List.append_assoc]
    rfl
  | .obj [] => rfl
  | .obj ((k, j) :: rest) => by
    rw [prettyChars, chars, prettyChars_eq (depth + 1) j, prettyFields_eq depth rest]
    simp only [List.append_assoc, List.cons_append]
    rfl

theorem prettyItems_eq (depth : Nat) : ∀ js, prettyItems depth js = wide.items depth js
  | [] => rfl
  | j :: rest => by
    rw [prettyItems, items, prettyChars_eq (depth + 1) j, prettyItems_eq depth rest,
      List.append_assoc]
    rfl

theorem prettyFields_eq (depth : Nat) : ∀ fs, prettyFields depth fs = wide.fields depth fs
  | [] => rfl
  | (k, j) :: rest => by
    rw [prettyFields, fields, prettyChars_eq (depth + 1) j, prettyFields_eq depth rest]
    simp only [List.append_assoc, List.cons_append]
    rfl

end

end Layout

/-! ### Plain values -/

/-- The value is a number that is no integer. -/
def isReal : Json → Bool
  | .real _ => true
  | _ => false

/-- Every string of the value is a text and every number an integer. -/
def Plain (j : Json) : Prop := j.any (fun j => j.isGarbled || j.isReal) = false

def PlainItems (js : List Json) : Prop := anyItem (fun j => j.isGarbled || j.isReal) js = false

def PlainFields (fs : List (String × Json)) : Prop :=
  anyField (fun j => j.isGarbled || j.isReal) fs = false

@[simp] theorem plain_arr (js : List Json) : Plain (.arr js) ↔ PlainItems js := by
  simp [Plain, PlainItems, any, isGarbled, isReal]

@[simp] theorem plain_obj (fs : List (String × Json)) : Plain (.obj fs) ↔ PlainFields fs := by
  simp [Plain, PlainFields, any, isGarbled, isReal]

@[simp] theorem plainItems_cons (j : Json) (js : List Json) :
    PlainItems (j :: js) ↔ Plain j ∧ PlainItems js := by
  simp [PlainItems, Plain, anyItem]

@[simp] theorem plainFields_cons (k : String) (j : Json) (fs : List (String × Json)) :
    PlainFields ((k, j) :: fs) ↔ Plain j ∧ PlainFields fs := by
  simp [PlainFields, Plain, anyField]

/-! ### Blanks -/

theorem skipSpace_append {blanks : List Char} (h : ∀ c ∈ blanks, isSpace c = true)
    (cs : List Char) : skipSpace (blanks ++ cs) = skipSpace cs :=
  List.dropWhile_append_of_pos h

theorem skipSpace_cons {c : Char} (h : isSpace c = false) (cs : List Char) :
    skipSpace (c :: cs) = c :: cs := by
  simp [skipSpace, h]

theorem value?_blanks {blanks : List Char} (h : ∀ c ∈ blanks, isSpace c = true) (steps : Nat)
    (cs : List Char) : value? steps (blanks ++ cs) = value? steps cs := by
  cases steps with
  | zero => simp only [value?]
  | succ steps => simp only [value?, skipSpace_append h]

/-! ### What is next -/

/-- What may follow a value: the end, a blank, a comma or a closing bracket. -/
def EndsValue (rest : List Char) : Prop :=
  ∀ c ∈ rest.head?, isSpace c = true ∨ c = ',' ∨ c = ']' ∨ c = '}'

theorem EndsValue.endsNumber {rest : List Char} (h : EndsValue rest) : EndsNumber rest := by
  intro c hc
  rcases h c hc with hspace | rfl | rfl | rfl
  · simp only [isSpace, Bool.or_eq_true, beq_iff_eq] at hspace
    rcases hspace with ((rfl | rfl) | rfl) | rfl <;> decide
  · decide
  · decide
  · decide

theorem endsValue_cons {c : Char} (h : isSpace c = true ∨ c = ',' ∨ c = ']' ∨ c = '}')
    (rest : List Char) : EndsValue (c :: rest) := by
  intro d hd
  rwa [← Option.some.inj hd]

theorem endsValue_append {blanks : List Char} (h : ∀ c ∈ blanks, isSpace c = true)
    {rest : List Char} (hrest : EndsValue rest) : EndsValue (blanks ++ rest) := by
  cases blanks with
  | nil => exact hrest
  | cons c cs => exact endsValue_cons (.inl (h c List.mem_cons_self)) _

/-- What a value begins with: no blank and no closing bracket. -/
def Begins (cs : List Char) : Prop :=
  ∃ c rest, cs = c :: rest ∧ isSpace c = false ∧ c ≠ ']' ∧ c ≠ '}'

namespace Layout

theorem endsValue_items (l : Layout) (depth : Nat) (js : List Json) (rest : List Char) :
    EndsValue (l.items depth js ++ rest) := by
  cases js with
  | nil =>
    rw [items, List.append_assoc]
    exact endsValue_append (l.line_blank depth) (endsValue_cons (by decide) _)
  | cons j js => exact endsValue_cons (by decide) _

theorem endsValue_fields (l : Layout) (depth : Nat) (fs : List (String × Json))
    (rest : List Char) : EndsValue (l.fields depth fs ++ rest) := by
  cases fs with
  | nil =>
    rw [fields, List.append_assoc]
    exact endsValue_append (l.line_blank depth) (endsValue_cons (by decide) _)
  | cons f fs => exact endsValue_cons (by decide) _

end Layout

/-- Numbers begin with no character that another value begins with. -/
theorem begins_integer (n : Int) : ∃ c cs, integer n = c :: cs ∧ isSpace c = false ∧
    c ∉ ['n', 't', 'f', '"', '[', ']', '{', '}'] := by
  obtain ⟨c, cs, hcs, rfl | hc⟩ := exists_integer n
  · exact ⟨'-', cs, hcs, by decide, by decide⟩
  · refine ⟨c, cs, hcs, ?_, fun hmem => ?_⟩
    · refine Bool.eq_false_iff.mpr fun hspace => ?_
      simp only [isSpace, Bool.or_eq_true, beq_iff_eq] at hspace
      rcases hspace with ((rfl | rfl) | rfl) | rfl <;> exact absurd hc (by decide)
    · have hall : ['n', 't', 'f', '"', '[', ']', '{', '}'].all (fun d => !d.isDigit) = true := by
        decide
      have hno := List.all_eq_true.mp hall c hmem
      rw [hc] at hno
      cases hno

theorem Layout.begins_chars (l : Layout) (depth : Nat) {j : Json} (h : j.Plain) (rest : List Char) :
    Begins (l.chars depth j ++ rest) := by
  have hstart : ∀ c cs, isSpace c = false ∧ c ≠ ']' ∧ c ≠ '}' → Begins (c :: cs ++ rest) :=
    fun c cs hc => ⟨c, cs ++ rest, rfl, hc⟩
  match j with
  | .null => exact hstart _ _ (by decide)
  | .bool true => exact hstart _ _ (by decide)
  | .bool false => exact hstart _ _ (by decide)
  | .int n =>
    obtain ⟨c, cs, hcs, hspace, hc⟩ := begins_integer n
    simp only [List.mem_cons, List.not_mem_nil, or_false, not_or] at hc
    have htext : l.chars depth (.int n) = c :: cs := hcs
    rw [htext]
    exact hstart c cs (by simp [hspace, hc])
  | .real _ => cases h
  | .str _ => exact hstart _ _ (by decide)
  | .arr [] => exact hstart _ _ (by decide)
  | .arr (_ :: _) => exact hstart _ _ (by decide)
  | .obj [] => exact hstart _ _ (by decide)
  | .obj ((_, _) :: _) => exact hstart _ _ (by decide)
  | .garbled => cases h

/-! ### Reading -/

/-- A value that begins like no other is a number. -/
theorem value?_integer (steps : Nat) (n : Int) {rest : List Char} (h : EndsValue rest) :
    value? (steps + 1) (integer n ++ rest) = some (.int n, rest) := by
  obtain ⟨c, cs, hcs, hspace, hc⟩ := begins_integer n
  have hread := number?_integer n h.endsNumber
  rw [hcs, List.cons_append] at hread ⊢
  simp only [List.mem_cons, List.not_mem_nil, or_false, not_or] at hc
  rw [value?, skipSpace_cons hspace]
  simp [hc, hread]

theorem value?_string (steps : Nat) (s : String) (rest : List Char) :
    value? (steps + 1) (quoted s ++ rest) = some (.str s, rest) := by
  have htext : quoted s ++ rest = '"' :: (s.toList.flatMap escape ++ '"' :: rest) := by
    simp [quoted]
  rw [htext, value?, skipSpace_cons (by decide)]
  simp [string?_text]

theorem name?_quoted {blanks : List Char} (h : ∀ c ∈ blanks, isSpace c = true) (k : String)
    (rest : List Char) : name? (blanks ++ (quoted k ++ ':' :: rest)) = some (some k, rest) := by
  have htext : quoted k ++ ':' :: rest =
      '"' :: (k.toList.flatMap escape ++ '"' :: ':' :: rest) := by
    simp [quoted]
  rw [name?, skipSpace_append h, htext, skipSpace_cons (by decide)]
  simp [string?_text, skipSpace_cons (by decide : isSpace ':' = false)]

theorem mapM_named (fs : List (String × Json)) :
    (fs.map fun (k, j) => (some k, j)).mapM (fun (k, v) => k.map fun k => (k, v)) = some fs := by
  induction fs with
  | nil => rfl
  | cons f fs ih => simp [ih]

theorem ofFields_some (fs : List (String × Json)) :
    ofFields (fs.map fun (k, j) => (some k, j)) = .obj fs := by
  rw [ofFields, mapM_named]

namespace Layout

mutual

/-- **A printed value is read back**, and what follows it is left. -/
theorem value?_chars (l : Layout) (depth : Nat) : ∀ (j : Json) (steps : Nat) (rest : List Char),
    j.Plain → EndsValue rest → (l.chars depth j).length < steps →
      value? steps (l.chars depth j ++ rest) = some (j, rest)
  | j, 0, rest, _, _, hsteps => absurd hsteps (Nat.not_lt_zero _)
  | .null, steps + 1, rest, _, _, _ => by simp [chars, leaf, value?, skipSpace, isSpace]
  | .bool true, steps + 1, rest, _, _, _ => by simp [chars, leaf, value?, skipSpace, isSpace]
  | .bool false, steps + 1, rest, _, _, _ => by simp [chars, leaf, value?, skipSpace, isSpace]
  | .int n, steps + 1, rest, _, hrest, _ => value?_integer steps n hrest
  | .real _, steps + 1, rest, hplain, _, _ => by cases hplain
  | .str s, steps + 1, rest, _, _, _ => value?_string steps s rest
  | .arr [], steps + 1, rest, _, _, _ => by simp [chars, value?, skipSpace, isSpace]
  | .arr (j :: js), steps + 1, rest, hplain, hrest, hsteps => by
    obtain ⟨hj, hjs⟩ := (plainItems_cons j js).mp ((plain_arr _).mp hplain)
    simp only [chars, List.length_cons, List.length_append] at hsteps
    have hitem := value?_chars l (depth + 1) j steps (l.items depth js ++ rest) hj
      (l.endsValue_items depth js rest) (by omega)
    have hitems := items?_items l depth js steps rest hjs (by omega)
    -- the first character tells the item from a closing bracket
    obtain ⟨c, cs, hbegin, hspace, hbracket, -⟩ :=
      l.begins_chars (depth + 1) hj (l.items depth js ++ rest)
    rw [hbegin] at hitem
    rw [chars, List.cons_append, value?, skipSpace_cons (by decide)]
    simp only [List.append_assoc, skipSpace_append (l.line_blank _), hbegin, skipSpace_cons hspace]
    simp [hbracket, hitem, hitems]
  | .obj [], steps + 1, rest, _, _, _ => by simp [chars, value?, skipSpace, isSpace]
  | .obj ((k, j) :: fs), steps + 1, rest, hplain, hrest, hsteps => by
    obtain ⟨hj, hfs⟩ := (plainFields_cons k j fs).mp ((plain_obj _).mp hplain)
    simp only [chars, List.length_cons, List.length_append] at hsteps
    have hfield := value?_chars l (depth + 1) j steps (l.fields depth fs ++ rest) hj
      (l.endsValue_fields depth fs rest) (by omega)
    have hfields := fields?_fields l depth fs steps rest hfs (by omega)
    -- what is left when the blanks behind the brace are skipped
    have hname := name?_quoted (fun c hc => absurd hc List.not_mem_nil) k
      (l.colon ++ (l.chars (depth + 1) j ++ (l.fields depth fs ++ rest)))
    simp only [quoted, List.append_assoc, List.cons_append, List.nil_append] at hname
    rw [chars, List.cons_append, value?, skipSpace_cons (by decide)]
    simp only [List.append_assoc, List.cons_append, List.nil_append,
      skipSpace_append (l.line_blank _), quoted, skipSpace_cons (by decide : isSpace '"' = false)]
    have hobject := ofFields_some ((k, j) :: fs)
    rw [List.map_cons] at hobject
    simp [hname, value?_blanks l.colon_blank, hfield, hfields, hobject]
  | .garbled, steps + 1, rest, hplain, _, _ => by cases hplain

theorem items?_items (l : Layout) (depth : Nat) : ∀ (js : List Json) (steps : Nat)
    (rest : List Char), PlainItems js → (l.items depth js).length < steps →
      items? steps (l.items depth js ++ rest) = some (js, rest)
  | _, 0, rest, _, hsteps => absurd hsteps (Nat.not_lt_zero _)
  | [], steps + 1, rest, _, _ => by
    rw [items, List.append_assoc, items?, skipSpace_append (l.line_blank depth)]
    simp [skipSpace, isSpace]
  | j :: js, steps + 1, rest, hplain, hsteps => by
    obtain ⟨hj, hjs⟩ := (plainItems_cons j js).mp hplain
    simp only [items, List.length_cons, List.length_append] at hsteps
    have hitem := value?_chars l (depth + 1) j steps (l.items depth js ++ rest) hj
      (l.endsValue_items depth js rest) (by omega)
    have hitems := items?_items l depth js steps rest hjs (by omega)
    rw [items, List.cons_append, items?, skipSpace_cons (by decide)]
    simp [value?_blanks (l.line_blank _), hitem, hitems]

theorem fields?_fields (l : Layout) (depth : Nat) : ∀ (fs : List (String × Json)) (steps : Nat)
    (rest : List Char), PlainFields fs → (l.fields depth fs).length < steps →
      fields? steps (l.fields depth fs ++ rest) = some (fs.map fun (k, j) => (some k, j), rest)
  | _, 0, rest, _, hsteps => absurd hsteps (Nat.not_lt_zero _)
  | [], steps + 1, rest, _, _ => by
    rw [fields, List.append_assoc, fields?, skipSpace_append (l.line_blank depth)]
    simp [skipSpace, isSpace]
  | (k, j) :: fs, steps + 1, rest, hplain, hsteps => by
    obtain ⟨hj, hfs⟩ := (plainFields_cons k j fs).mp hplain
    simp only [fields, List.length_cons, List.length_append] at hsteps
    have hfield := value?_chars l (depth + 1) j steps (l.fields depth fs ++ rest) hj
      (l.endsValue_fields depth fs rest) (by omega)
    have hfields := fields?_fields l depth fs steps rest hfs (by omega)
    rw [fields, List.cons_append, fields?, skipSpace_cons (by decide)]
    simp [name?_quoted (l.line_blank _), value?_blanks l.colon_blank, hfield, hfields]

end

end Layout

/-! ### Whole texts -/

/-- **The text of a plain value, on one line, is the value.** -/
theorem parse?_compact {j : Json} (h : j.Plain) : parse? j.compact = some j := by
  have hread := Layout.tight.value?_chars 0 j _ [] h (fun c hc => by cases hc)
    (Nat.lt_succ_self _)
  rw [List.append_nil] at hread
  rw [parse?, compact, String.toList_ofList, Layout.compactChars_eq 0]
  simp only [hread]
  rfl

/-- And so is its text with a line for every part. -/
theorem parse?_pretty {j : Json} (h : j.Plain) : parse? j.pretty = some j := by
  have hread := Layout.wide.value?_chars 0 j _ [] h (fun c hc => by cases hc)
    (Nat.lt_succ_self _)
  rw [List.append_nil] at hread
  rw [parse?, pretty, String.toList_ofList, Layout.prettyChars_eq 0]
  simp only [hread]
  rfl

/-! ### One line -/

theorem le_of_all {cs : List Char} (h : cs.all (fun c => ' ' ≤ c) = true) : ∀ c ∈ cs, ' ' ≤ c :=
  fun c hc => of_decide_eq_true (List.all_eq_true.mp h c hc)

theorem le_of_mem_integer {n : Int} {c : Char} (h : c ∈ integer n) : ' ' ≤ c := by
  have hdigit : ∀ d ∈ Nat.toDigits 10 n.natAbs, ' ' ≤ d := by
    intro d hd
    have hlow := toNat_of_isDigit (Nat.isDigit_of_mem_toDigits (by decide) (by decide) hd)
    exact Char.le_def.mpr (Nat.le_trans (by decide) hlow.1)
  rw [integer] at h
  split at h
  · rcases List.mem_cons.mp h with rfl | h
    · decide
    · exact hdigit c h
  · exact hdigit c h

mutual

/-- **The compact text of a plain value has no control character**, and so no line feed. -/
theorem le_of_mem_compactChars : ∀ (j : Json), j.Plain → ∀ c ∈ compactChars j, ' ' ≤ c
  | .null, _ => le_of_all (by decide)
  | .bool true, _ => le_of_all (by decide)
  | .bool false, _ => le_of_all (by decide)
  | .int _, _ => fun _ => le_of_mem_integer
  | .real _, hplain => by cases hplain
  | .str _, _ => fun _ => le_of_mem_quoted
  | .arr [], _ => le_of_all (by decide)
  | .arr (j :: rest), hplain => by
    obtain ⟨hj, hrest⟩ := (plainItems_cons j rest).mp ((plain_arr _).mp hplain)
    intro c hc
    rw [compactChars, List.mem_cons, List.mem_append] at hc
    rcases hc with rfl | hc | hc
    · decide
    · exact le_of_mem_compactChars j hj c hc
    · exact le_of_mem_compactItems rest hrest c hc
  | .obj [], _ => le_of_all (by decide)
  | .obj ((k, j) :: rest), hplain => by
    obtain ⟨hj, hrest⟩ := (plainFields_cons k j rest).mp ((plain_obj _).mp hplain)
    intro c hc
    rw [compactChars, List.mem_cons, List.mem_append, List.mem_cons, List.mem_append] at hc
    rcases hc with rfl | hc | rfl | hc | hc
    · decide
    · exact le_of_mem_quoted hc
    · decide
    · exact le_of_mem_compactChars j hj c hc
    · exact le_of_mem_compactFields rest hrest c hc
  | .garbled, hplain => by cases hplain

theorem le_of_mem_compactItems : ∀ (js : List Json), PlainItems js →
    ∀ c ∈ compactItems js, ' ' ≤ c
  | [], _ => le_of_all (by decide)
  | j :: rest, hplain => by
    obtain ⟨hj, hrest⟩ := (plainItems_cons j rest).mp hplain
    intro c hc
    rw [compactItems, List.mem_cons, List.mem_append] at hc
    rcases hc with rfl | hc | hc
    · decide
    · exact le_of_mem_compactChars j hj c hc
    · exact le_of_mem_compactItems rest hrest c hc

theorem le_of_mem_compactFields : ∀ (fs : List (String × Json)), PlainFields fs →
    ∀ c ∈ compactFields fs, ' ' ≤ c
  | [], _ => le_of_all (by decide)
  | (k, j) :: rest, hplain => by
    obtain ⟨hj, hrest⟩ := (plainFields_cons k j rest).mp hplain
    intro c hc
    rw [compactFields, List.mem_cons, List.mem_append, List.mem_cons, List.mem_append] at hc
    rcases hc with rfl | hc | rfl | hc | hc
    · decide
    · exact le_of_mem_quoted hc
    · decide
    · exact le_of_mem_compactChars j hj c hc
    · exact le_of_mem_compactFields rest hrest c hc

end

end SignOff.Json
