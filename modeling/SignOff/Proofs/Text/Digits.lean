/-
  SignOff/Proofs/Text/Digits.lean
  ===============================
  **Padded numbers read back.**  A number written with leading zeros stands for itself
  (`numberOf_padded`), takes exactly its width when it fits (`length_padded`), and consists
  of digits.  The readers of fixed positions follow from these three facts: two digits
  (`twoDigits?_padded`), a run of digits (`digitRun_append`), and the digits of a fraction
  (`nanosOf_of_length`).

  Texts are compared character by character.  In a fixed width this is the order of the
  numbers (`padded_append_lt`).
-/
import SignOff.Text.Digits
import Mathlib.Algebra.Group.Nat.Defs
import Mathlib.Data.List.Basic

namespace SignOff.Text

/-! ### Writing -/

theorem numberOf_append (ds es : List Char) :
    numberOf (ds ++ es) = 10 ^ es.length * numberOf ds + numberOf es := by
  rw [numberOf, Nat.ofDigitChars_append, Nat.ofDigitChars_eq_ofDigitChars_zero]
  rfl

theorem numberOf_toDigits (n : Nat) : numberOf (Nat.toDigits 10 n) = n := by
  rw [numberOf, Nat.ofDigitChars_ten_toDigits]

theorem numberOf_padded (width n : Nat) : numberOf (padded width n) = n := by
  simp only [padded, numberOf_append]
  have hzeros : numberOf (List.replicate (width - (Nat.toDigits 10 n).length) '0') = 0 := by
    simp [numberOf]
  rw [hzeros, Nat.mul_zero, Nat.zero_add, numberOf_toDigits]

/-- A number that fits its width takes exactly that many digits. -/
theorem length_padded {width n : Nat} (hw : 0 < width) (h : n < 10 ^ width) :
    (padded width n).length = width := by
  have hle : (Nat.toDigits 10 n).length ≤ width :=
    (Nat.length_toDigits_le_iff (by decide) hw).mpr h
  simp only [padded, List.length_append, List.length_replicate]
  omega

theorem numberOf_padded_zeros (width n zeros : Nat) :
    numberOf (padded width n ++ List.replicate zeros '0') = n * 10 ^ zeros := by
  have hzeros : numberOf (List.replicate zeros '0') = 0 := by simp [numberOf]
  rw [numberOf_append, numberOf_padded, hzeros, List.length_replicate, Nat.add_zero, Nat.mul_comm]

theorem isDigit_of_mem_padded {width n : Nat} {c : Char} (h : c ∈ padded width n) :
    c.isDigit = true := by
  rcases List.mem_append.mp h with hzero | hdigit
  · rw [List.eq_of_mem_replicate hzero]
    rfl
  · exact Nat.isDigit_of_mem_toDigits (by decide) (by decide) hdigit

theorem exists_padded (width n : Nat) : ∃ d ds, padded width n = d :: ds ∧ d.isDigit = true := by
  have hne : padded width n ≠ [] := by simp [padded, Nat.toDigits_ne_nil]
  obtain ⟨d, ds, hds⟩ := List.exists_cons_of_ne_nil hne
  exact ⟨d, ds, hds, isDigit_of_mem_padded (hds ▸ List.mem_cons_self)⟩

/-! ### Reading back -/

theorem twoDigits?_padded {n : Nat} (h : n < 100) (rest : List Char) :
    twoDigits? (padded 2 n ++ rest) = some (n, rest) := by
  have hlen : (padded 2 n).length = 2 := length_padded (by decide) h
  obtain ⟨a, b, hab⟩ := List.length_eq_two.mp hlen
  have hdigit : ∀ c ∈ padded 2 n, c.isDigit = true := fun c hc => isDigit_of_mem_padded hc
  have ha : a.isDigit = true := hdigit a (by simp [hab])
  have hb : b.isDigit = true := hdigit b (by simp [hab])
  have hn : numberOf [a, b] = n := hab ▸ numberOf_padded 2 n
  simp [hab, twoDigits?, ha, hb, hn]

/-- What follows does not begin with a digit. -/
def EndsDigits (rest : List Char) : Prop := ∀ c ∈ rest.head?, c.isDigit = false

theorem endsDigits_nil : EndsDigits [] := fun _ h => by cases h

theorem endsDigits_cons {c : Char} (h : c.isDigit = false) (cs : List Char) :
    EndsDigits (c :: cs) := by
  intro d hd
  rwa [← Option.some.inj hd]

/-- A run of digits ends at the first character that is none. -/
theorem digitRun_append {ds rest : List Char} (hds : ∀ c ∈ ds, c.isDigit = true)
    (hrest : EndsDigits rest) : digitRun (ds ++ rest) = (ds, rest) := by
  have htake : rest.takeWhile Char.isDigit = [] := by
    cases rest with
    | nil => rfl
    | cons c cs => simp [hrest c rfl]
  have hdrop : rest.dropWhile Char.isDigit = rest := by
    cases rest with
    | nil => rfl
    | cons c cs => simp [hrest c rfl]
  rw [digitRun, List.takeWhile_append_of_pos hds, List.dropWhile_append_of_pos hds, htake, hdrop,
    List.append_nil]

/-- Nine digits count, and the missing ones are zeros. -/
theorem nanosOf_of_length {ds : List Char} {zeros : Nat} (h : ds.length + zeros = 9) :
    nanosOf ds = numberOf (ds ++ List.replicate zeros '0') := by
  rw [nanosOf, List.take_append, List.take_of_length_le (by omega), List.take_replicate,
    Nat.min_eq_left (Nat.sub_le ..), Nat.sub_eq_of_eq_add' h.symm]

/-! ### Order -/

theorem numberOf_cons (c : Char) (ds : List Char) :
    numberOf (c :: ds) = 10 ^ ds.length * (c.toNat - 48) + numberOf ds := by
  have hone : numberOf [c] = c.toNat - 48 := by simp [numberOf, Nat.ofDigitChars]
  rw [← List.singleton_append, numberOf_append, hone]

theorem toNat_of_isDigit {c : Char} (h : c.isDigit = true) : 48 ≤ c.toNat ∧ c.toNat ≤ 57 := by
  simp only [Char.isDigit, Bool.and_eq_true, decide_eq_true_eq] at h
  exact ⟨h.1, h.2⟩

theorem numberOf_lt {ds : List Char} (h : ∀ c ∈ ds, c.isDigit = true) :
    numberOf ds < 10 ^ ds.length := by
  induction ds with
  | nil => decide
  | cons c rest ih =>
    have hrest := ih fun d hd => h d (List.mem_cons_of_mem c hd)
    obtain ⟨hlow, hhigh⟩ := toNat_of_isDigit (h c List.mem_cons_self)
    have hc : 10 ^ rest.length * (c.toNat - 48) ≤ 10 ^ rest.length * 9 :=
      Nat.mul_le_mul_left _ (by omega)
    rw [numberOf_cons, List.length_cons, Nat.pow_succ]
    omega

/-- Runs of digits of one length come in the order of the numbers that they stand for. -/
theorem lt_of_numberOf_lt {ds es : List Char} (hlen : ds.length = es.length)
    (hds : ∀ c ∈ ds, c.isDigit = true) (hes : ∀ c ∈ es, c.isDigit = true)
    (h : numberOf ds < numberOf es) : ds < es := by
  induction ds generalizing es with
  | nil =>
    rw [List.length_nil] at hlen
    rw [List.length_eq_zero_iff.mp hlen.symm] at h
    exact absurd h (Nat.lt_irrefl _)
  | cons c ds ih =>
    cases es with
    | nil => cases hlen
    | cons d es =>
      have hlen : ds.length = es.length := by simpa using hlen
      have hds' : ∀ c ∈ ds, c.isDigit = true := fun x hx => hds x (List.mem_cons_of_mem c hx)
      have hes' : ∀ c ∈ es, c.isDigit = true := fun x hx => hes x (List.mem_cons_of_mem d hx)
      obtain ⟨hc, -⟩ := toNat_of_isDigit (hds c List.mem_cons_self)
      obtain ⟨hd, -⟩ := toNat_of_isDigit (hes d List.mem_cons_self)
      rw [numberOf_cons, numberOf_cons, hlen] at h
      rw [List.cons_lt_cons_iff]
      -- the first digits decide, unless they are the same
      rcases Nat.lt_trichotomy c.toNat d.toNat with hlt | heq | hgt
      · exact .inl hlt
      · rw [heq] at h
        exact .inr ⟨Char.toNat_inj.mp heq, ih hlen hds' hes' (by omega)⟩
      · have hbound := numberOf_lt hes'
        have hstep : 10 ^ es.length * (d.toNat - 48 + 1) ≤ 10 ^ es.length * (c.toNat - 48) :=
          Nat.mul_le_mul_left _ (by omega)
        rw [Nat.mul_add] at hstep
        omega

/-- Of lists of one length what comes first decides. -/
theorem lt_append_of_lt {as bs cs ds : List Char} (hlen : as.length = bs.length) (h : as < bs) :
    as ++ cs < bs ++ ds := by
  induction as generalizing bs with
  | nil =>
    rw [List.length_nil] at hlen
    rw [List.length_eq_zero_iff.mp hlen.symm] at h
    exact absurd h (List.not_lt_nil _)
  | cons a as ih =>
    cases bs with
    | nil => cases hlen
    | cons b bs =>
      rw [List.cons_append, List.cons_append, List.cons_lt_cons_iff]
      rcases List.cons_lt_cons_iff.mp h with hlt | ⟨heq, hrest⟩
      · exact .inl hlt
      · exact .inr ⟨heq, ih (by simpa using hlen) hrest⟩

/-- A field of a fixed width decides, unless it is the same. -/
theorem padded_append_lt {width n m : Nat} (hw : 0 < width) (hn : n < 10 ^ width)
    (hm : m < 10 ^ width) {cs ds : List Char} (h : n < m ∨ n = m ∧ cs < ds) :
    padded width n ++ cs < padded width m ++ ds := by
  rcases h with hlt | ⟨rfl, hrest⟩
  · have hlen : (padded width n).length = (padded width m).length := by
      rw [length_padded hw hn, length_padded hw hm]
    apply lt_append_of_lt hlen
    apply lt_of_numberOf_lt hlen (fun c => isDigit_of_mem_padded) fun c => isDigit_of_mem_padded
    rwa [numberOf_padded, numberOf_padded]
  · exact List.append_left_lt hrest

theorem isDigit_of_mem_zeros {ds : List Char} (h : ∀ c ∈ ds, c.isDigit = true) (zeros : Nat) :
    ∀ c ∈ ds ++ List.replicate zeros '0', c.isDigit = true := by
  intro c hc
  rcases List.mem_append.mp hc with hc | hc
  · exact h c hc
  · rw [List.eq_of_mem_replicate hc]
    rfl

theorem not_lt_zeros {n : Nat} {ds : List Char} (hlen : ds.length = n)
    (hds : ∀ c ∈ ds, c.isDigit = true) : ¬ds < List.replicate n '0' := by
  induction ds generalizing n with
  | nil =>
    rw [← hlen]
    exact List.not_lt_nil _
  | cons c rest ih =>
    have hrest := ih rfl fun d hd => hds d (List.mem_cons_of_mem c hd)
    obtain ⟨hc, -⟩ := toNat_of_isDigit (hds c List.mem_cons_self)
    rw [← hlen, List.length_cons, List.replicate_succ, List.cons_lt_cons_iff]
    rintro (hlt | ⟨-, hlt⟩)
    · exact Nat.not_lt_of_le hc (Char.lt_def.mp hlt)
    · exact hrest hlt

/-- Digits keep their order when the zeros behind them are left out, as long as what ends them
    comes before every digit. -/
theorem lt_of_zeros {ds es : List Char} {a b : Nat} {last : Char}
    (hlast : ∀ c : Char, c.isDigit = true → last < c) (hds : ∀ c ∈ ds, c.isDigit = true)
    (hes : ∀ c ∈ es, c.isDigit = true) (hlen : ds.length + a = es.length + b)
    (h : ds ++ List.replicate a '0' < es ++ List.replicate b '0') (cs : List Char) :
    ds ++ last :: cs < es ++ last :: cs := by
  induction ds generalizing es with
  | nil =>
    cases es with
    | nil =>
      obtain rfl : a = b := by simpa using hlen
      exact absurd h (List.lt_irrefl _)
    | cons d es => exact List.cons_lt_cons_iff.mpr (.inl (hlast d (hes d List.mem_cons_self)))
  | cons c ds ih =>
    cases es with
    | nil =>
      -- zeros are the least digits that there are
      have hlen : (c :: ds ++ List.replicate a '0').length = b := by
        rw [List.length_append, List.length_replicate, hlen, List.length_nil, Nat.zero_add]
      exact absurd h (not_lt_zeros hlen (isDigit_of_mem_zeros hds a))
    | cons d es =>
      rw [List.cons_append, List.cons_append, List.cons_lt_cons_iff] at h ⊢
      rcases h with hlt | ⟨heq, hrest⟩
      · exact .inl hlt
      · refine .inr ⟨heq, ih (fun x hx => hds x (List.mem_cons_of_mem c hx))
          (fun x hx => hes x (List.mem_cons_of_mem d hx)) ?_ hrest⟩
        simp only [List.length_cons] at hlen
        omega

end SignOff.Text
