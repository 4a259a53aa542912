/-
  SignOff/Proofs/Json/Leaves.lean
  ===============================
  **Strings and numbers are read back.**  A character of a string is printed in one of three
  ways (`Printed`), and the reader makes one piece of it that stands for the character
  (`pieces_escape`).  Pieces that each stand for a character are put together to the text
  (`assemble_standing`): no printed piece names half of a surrogate pair, as only control
  characters are printed by their codes.  An integer is read back in front of anything that
  cannot be part of a number (`number?_integer`).
-/
import SignOff.Json.Parser
import SignOff.Json.Printer
import SignOff.Proofs.Text.Digits

namespace SignOff.Json

open Text

/-! ### Printed characters -/

/-- How a character is printed: by a letter, by its code, or as it is. -/
inductive Printed (c : Char) : List Char → Prop where
  | letter {e : Char} (h : escaped? e = some c) (hu : e ≠ 'u') (he : ' ' ≤ e) :
    Printed c ['\\', e]
  | code (h : c.toNat < 32) :
    Printed c ['\\', 'u', '0', '0', hexDigit (c.toNat / 16), hexDigit (c.toNat % 16)]
  | itself (h : 32 ≤ c.toNat) (hquote : c ≠ '"') (hslash : c ≠ '\\') : Printed c [c]

theorem printed_escape (c : Char) : Printed c (escape c) := by
  unfold escape
  split_ifs with hquote hslash h8 h9 h10 h12 h13 hcontrol
  · subst hquote
    exact .letter (by decide) (by decide) (by decide)
  · subst hslash
    exact .letter (by decide) (by decide) (by decide)
  · subst h8
    exact .letter (by decide) (by decide) (by decide)
  · subst h9
    exact .letter (by decide) (by decide) (by decide)
  · subst h10
    exact .letter (by decide) (by decide) (by decide)
  · subst h12
    exact .letter (by decide) (by decide) (by decide)
  · subst h13
    exact .letter (by decide) (by decide) (by decide)
  · exact .code hcontrol
  · exact .itself (by omega) hquote hslash

theorem hexDigit_spec {n : Nat} (h : n < 16) :
    hexDigit? (hexDigit n) = some n ∧ ' ' ≤ hexDigit n := by
  have hall : ∀ n < 16, hexDigit? (Nat.digitChar n) = some n ∧ ' ' ≤ Nat.digitChar n := by decide
  exact hall n h

/-- **Nothing below the blank is printed.**  In particular a printed string has no line
    feed. -/
theorem le_of_mem_escape {c d : Char} (h : d ∈ escape c) : ' ' ≤ d := by
  have hp := printed_escape c
  generalize escape c = cs at h hp
  cases hp with
  | letter he hu hlow =>
    simp only [List.mem_cons, List.not_mem_nil, or_false] at h
    rcases h with rfl | rfl
    · decide
    · exact hlow
  | code hcontrol =>
    have hhigh := (hexDigit_spec (n := c.toNat / 16) (by omega)).2
    have hlow := (hexDigit_spec (n := c.toNat % 16) (by omega)).2
    simp only [List.mem_cons, List.not_mem_nil, or_false] at h
    rcases h with rfl | rfl | rfl | rfl | rfl | rfl
    · decide
    · decide
    · decide
    · decide
    · exact hhigh
    · exact hlow
  | itself hplain =>
    rw [List.mem_singleton.mp h]
    exact Char.le_def.mpr hplain

theorem le_of_mem_quoted {s : String} {d : Char} (h : d ∈ quoted s) : ' ' ≤ d := by
  rcases List.mem_cons.mp h with rfl | h
  · decide
  · rcases List.mem_append.mp h with h | h
    · obtain ⟨c, -, hd⟩ := List.mem_flatMap.mp h
      exact le_of_mem_escape hd
    · rw [List.mem_singleton.mp h]
      decide

/-! ### Strings -/

/-- The piece stands for the character: it is the character itself, or names its code, which
    is that of a control character. -/
def Piece.StandsFor (p : Piece) (c : Char) : Prop :=
  p = .char c ∨ p = .unit c.toNat ∧ c.toNat < 32

theorem pieces_letter {e c : Char} (h : escaped? e = some c) (hu : e ≠ 'u') (rest : List Char) :
    pieces ('\\' :: e :: rest) = (pieces rest).map fun (ps, r) => (.char c :: ps, r) := by
  rw [pieces]
  · rw [h]
    cases pieces rest <;> rfl
  · intro _ _ _ _ _ heq _
    exact hu heq

theorem pieces_code {n : Nat} (h : n < 32) (rest : List Char) :
    pieces ('\\' :: 'u' :: '0' :: '0' :: hexDigit (n / 16) :: hexDigit (n % 16) :: rest) =
      (pieces rest).map fun (ps, r) => (.unit n :: ps, r) := by
  have hunit : unit? '0' '0' (hexDigit (n / 16)) (hexDigit (n % 16)) = some n := by
    have hzero : hexDigit? '0' = some 0 := by decide
    have hhigh := (hexDigit_spec (n := n / 16) (by omega)).1
    have hlow := (hexDigit_spec (n := n % 16) (by omega)).1
    have hsum : 16 * (n / 16) + n % 16 = n := by omega
    simp [unit?, hzero, hhigh, hlow, hsum]
  rw [pieces, hunit]
  cases pieces rest <;> rfl

theorem pieces_itself {c : Char} (h : 32 ≤ c.toNat) (hquote : c ≠ '"') (hslash : c ≠ '\\')
    (rest : List Char) :
    pieces (c :: rest) = (pieces rest).map fun (ps, r) => (.char c :: ps, r) := by
  have hplain : ¬(c = '\\' ∨ c.toNat < 32) := by
    rintro (heq | hlt)
    · exact hslash heq
    · omega
  rw [pieces]
  · rw [if_neg hplain]
    cases pieces rest <;> rfl
  · exact hquote
  · intro _ _ _ _ _ heq _
    exact hslash heq
  · intro _ _ heq
    exact absurd heq hslash

/-- Every printed character is read as one piece that stands for it. -/
theorem pieces_escape (c : Char) (rest : List Char) : ∃ p : Piece, p.StandsFor c ∧
    pieces (escape c ++ rest) = (pieces rest).map fun (ps, r) => (p :: ps, r) := by
  have hp := printed_escape c
  generalize escape c = cs at hp ⊢
  cases hp with
  | letter he hu => exact ⟨.char c, .inl rfl, pieces_letter he hu rest⟩
  | code hcontrol => exact ⟨.unit c.toNat, .inr ⟨rfl, hcontrol⟩, pieces_code hcontrol rest⟩
  | itself hplain hquote hslash =>
    exact ⟨.char c, .inl rfl, pieces_itself hplain hquote hslash rest⟩

/-- The pieces of a printed text, up to the closing quote. -/
theorem pieces_text (cs rest : List Char) : ∃ ps : List Piece,
    List.Forall₂ Piece.StandsFor ps cs ∧
      pieces (cs.flatMap escape ++ '"' :: rest) = some (ps, rest) := by
  induction cs with
  | nil => exact ⟨[], .nil, by rw [List.flatMap_nil, List.nil_append, pieces]⟩
  | cons c cs ih =>
    obtain ⟨ps, hps, hread⟩ := ih
    obtain ⟨p, hp, hpiece⟩ := pieces_escape c (cs.flatMap escape ++ '"' :: rest)
    refine ⟨p :: ps, .cons hp hps, ?_⟩
    rw [List.flatMap_cons, List.append_assoc, hpiece, hread]
    rfl

/-- A unit that is no half of a surrogate pair is a character of its own, whatever follows. -/
theorem assemble_unit {n : Nat} (h : n < 32) (ps : List Piece) :
    assemble (.unit n :: ps) = (assemble ps).map fun cs => Char.ofNat n :: cs := by
  have hhigh : isHighSurrogate n = false := by
    simp only [isHighSurrogate, Bool.and_eq_false_iff, decide_eq_false_iff_not]
    omega
  have hlow : isLowSurrogate n = false := by
    simp only [isLowSurrogate, Bool.and_eq_false_iff, decide_eq_false_iff_not]
    omega
  cases ps with
  | nil => simp [assemble, hhigh, hlow]
  | cons p ps => simp [assemble, hhigh, hlow]

theorem assemble_standing {ps : List Piece} {cs : List Char}
    (h : List.Forall₂ Piece.StandsFor ps cs) : assemble ps = some cs := by
  induction h with
  | nil => rfl
  | cons hp _ ih =>
    rcases hp with rfl | ⟨rfl, hcontrol⟩
    · rw [assemble, ih]
      rfl
    · rw [assemble_unit hcontrol, ih, Char.ofNat_toNat]
      rfl

/-- **A string is read back**, and what follows its closing quote is left. -/
theorem string?_text (s : String) (rest : List Char) :
    string? (s.toList.flatMap escape ++ '"' :: rest) = some (some s, rest) := by
  obtain ⟨ps, hps, hread⟩ := pieces_text s.toList rest
  simp [string?, hread, assemble_standing hps]

/-! ### Numbers -/

/-- What follows cannot be part of a number. -/
def EndsNumber (rest : List Char) : Prop :=
  ∀ c ∈ rest.head?, c.isDigit = false ∧ c ≠ '.' ∧ c ≠ 'e' ∧ c ≠ 'E'

theorem toDigits_ne_zero_cons (n : Nat) (d : Char) (ds : List Char) :
    Nat.toDigits 10 n ≠ '0' :: d :: ds := by
  intro h
  have hvalue := numberOf_toDigits n
  have hdigits : ∀ c ∈ d :: ds, c.isDigit = true := fun c hc =>
    Nat.isDigit_of_mem_toDigits (by decide) (by decide) (h ▸ List.mem_cons_of_mem '0' hc)
  -- without the zero there are fewer digits, and they say the same number
  have hsmall : n < 10 ^ (d :: ds).length := by
    have hlt := numberOf_lt hdigits
    rw [h, numberOf_cons] at hvalue
    have hzero : '0'.toNat - 48 = 0 := rfl
    rw [hzero, Nat.mul_zero, Nat.zero_add] at hvalue
    rwa [hvalue] at hlt
  have hlen := (Nat.length_toDigits_le_iff (by decide) (by simp)).mpr hsmall
  rw [h] at hlen
  exact absurd hlen (by simp)

theorem wholePart?_toDigits (n : Nat) {rest : List Char} (h : EndsNumber rest) :
    wholePart? (Nat.toDigits 10 n ++ rest) = some (Nat.toDigits 10 n, rest) := by
  have hrun : digitRun (Nat.toDigits 10 n ++ rest) = (Nat.toDigits 10 n, rest) :=
    digitRun_append (fun c hc => Nat.isDigit_of_mem_toDigits (by decide) (by decide) hc)
      fun c hc => (h c hc).1
  rw [wholePart?, hrun]
  split
  · next heq => exact absurd (congrArg Prod.fst heq) Nat.toDigits_ne_nil
  · next heq => exact absurd (congrArg Prod.fst heq) (toDigits_ne_zero_cons n _ _)
  · rfl

theorem pointPart?_of_ends {rest : List Char} (h : EndsNumber rest) :
    pointPart? rest = some ([], rest) := by
  cases rest with
  | nil => rfl
  | cons c cs => simp [pointPart?, (h c rfl).2.1]

theorem exponentPart?_of_ends {rest : List Char} (h : EndsNumber rest) :
    exponentPart? rest = some ([], rest) := by
  cases rest with
  | nil => rfl
  | cons c cs => simp [exponentPart?, (h c rfl).2.2]

theorem exists_toDigits (n : Nat) : ∃ d ds, Nat.toDigits 10 n = d :: ds ∧ d.isDigit = true := by
  simpa [padded] using exists_padded 0 n

theorem exists_integer (n : Int) :
    ∃ c cs, integer n = c :: cs ∧ (c = '-' ∨ c.isDigit = true) := by
  rw [integer]
  split
  · exact ⟨_, _, rfl, .inl rfl⟩
  · obtain ⟨d, ds, hds, hd⟩ := exists_toDigits n.natAbs
    exact ⟨d, ds, hds, .inr hd⟩

/-- **An integer is read back.** -/
theorem number?_integer (n : Int) {rest : List Char} (h : EndsNumber rest) :
    number? (integer n ++ rest) = some (.int n, rest) := by
  have hvalue := numberOf_toDigits n.natAbs
  have hparts := wholePart?_toDigits n.natAbs h
  rw [integer]
  split
  · next hneg =>
    have hne : n.natAbs ≠ 0 := by omega
    have habs : -(n.natAbs : Int) = n := by omega
    have hread : number? ('-' :: (Nat.toDigits 10 n.natAbs ++ rest)) =
        some (.int (-(n.natAbs : Int)), rest) := by
      simp [number?, hparts, pointPart?_of_ends h, exponentPart?_of_ends h, hvalue, hne]
    rw [List.cons_append, hread, habs]
  · next hpos =>
    have habs : (n.natAbs : Int) = n := by omega
    obtain ⟨d, ds, hds, hd⟩ := exists_toDigits n.natAbs
    have hminus : d ≠ '-' := fun heq => absurd (heq ▸ hd) (by decide)
    rw [hds] at hparts hvalue ⊢
    rw [List.cons_append] at hparts ⊢
    have hread : number? (d :: (ds ++ rest)) = some (.int (n.natAbs : Int), rest) := by
      simp [number?, hminus, hparts, pointPart?_of_ends h, exponentPart?_of_ends h, hvalue]
    rw [hread, habs]

end SignOff.Json
