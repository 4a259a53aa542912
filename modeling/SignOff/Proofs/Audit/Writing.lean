/-
  SignOff/Proofs/Audit/Writing.lean
  =================================
  **What a writer does to the files.**  The day files of a folder have names of their own, one
  for every date (`Journal.fileName_injective`).  The way to a day's file is open as long as
  its text is not too long (`Journal.Fits`).  Then an entry is always accepted: its line comes
  to the end of its day's file, and nothing else changes, whichever file the writer had open
  (`Writer.log_spec`).  Otherwise it is refused and nothing changes (`Writer.log_refused`).
-/
import SignOff.Audit.Writer
import SignOff.Proofs.Files.Walking
import SignOff.Proofs.Time.Reading

namespace SignOff

open Text

/-! ### Sizes -/

theorem utf8ByteSize_of_ascii {cs : List Char} (h : ∀ c ∈ cs, c.toNat < 128) :
    (String.ofList cs).utf8ByteSize = cs.length := by
  induction cs with
  | nil => rfl
  | cons c cs ih =>
    have hc : c.utf8Size = 1 := by
      have hcode : c.val.toNat ≤ 127 := Nat.le_of_lt_succ (h c List.mem_cons_self)
      rw [Char.utf8Size, if_pos (UInt32.le_iff_toNat_le.mpr hcode)]
    rw [String.ofList_cons, String.utf8ByteSize_append, String.utf8ByteSize_singleton, hc,
      ih fun d hd => h d (List.mem_cons_of_mem c hd), List.length_cons, Nat.add_comm]

theorem Date.of_mem_chars {d : Date} {c : Char} (h : c ∈ d.chars) :
    c.isDigit = true ∨ c = '-' ∨ c = '+' := by
  have hyear : ∀ c ∈ yearText d.year, c.isDigit = true ∨ c = '-' ∨ c = '+' := by
    intro c hc
    unfold yearText at hc
    split at hc
    · exact .inl (isDigit_of_mem_padded hc)
    · rcases List.mem_cons.mp hc with rfl | hc
      · split <;> decide
      · exact .inl (isDigit_of_mem_padded hc)
  simp only [chars, List.mem_append, List.mem_cons] at h
  rcases h with ((h | rfl | h) | rfl | h)
  · exact hyear c h
  · exact .inr (.inl rfl)
  · exact .inl (isDigit_of_mem_padded h)
  · exact .inr (.inl rfl)
  · exact .inl (isDigit_of_mem_padded h)

theorem Date.toNat_lt_of_mem_chars {d : Date} {c : Char} (h : c ∈ d.chars) : c.toNat < 128 := by
  rcases of_mem_chars h with hdigit | rfl | rfl
  · have := toNat_of_isDigit hdigit
    omega
  · decide
  · decide

/-- A year has at most a sign and six digits. -/
theorem length_yearText_le {y : Int} (h : minYear ≤ y ∧ y ≤ maxYear) : (yearText y).length ≤ 7 := by
  have hbound : y.natAbs < 10 ^ 6 := by
    simp only [minYear, maxYear] at h
    omega
  have hdigits : (Nat.toDigits 10 y.natAbs).length ≤ 6 :=
    (Nat.length_toDigits_le_iff (by decide) (by decide)).mpr hbound
  unfold yearText
  split
  · rw [length_padded (by decide) (by omega)]
    decide
  · simp only [padded, List.length_cons, List.length_append, List.length_replicate]
    omega

theorem Date.length_chars_le (d : Date) : d.chars.length ≤ 13 := by
  have hyear := length_yearText_le ⟨d.exists_date.1, d.exists_date.2.1⟩
  have hmonth : (padded 2 d.month).length = 2 := length_padded (by decide) d.month_lt
  have hday : (padded 2 d.day).length = 2 := length_padded (by decide) d.day_lt
  simp only [chars, List.length_append, List.length_cons, hmonth, hday]
  omega

namespace Audit

/-! ### Day files -/

namespace Journal

theorem toList_fileName (day : Date) :
    (fileName day).toList = "transfer-audit-".toList ++ day.chars ++ ".jsonl".toList := by
  have htext : fileName day = "transfer-audit-" ++ String.ofList day.chars ++ ".jsonl" := rfl
  rw [htext, String.toList_append, String.toList_append, String.toList_ofList (l := day.chars)]

theorem fileName_injective {day day' : Date} (h : fileName day = fileName day') : day = day' := by
  have hchars := congrArg String.toList h
  rw [toList_fileName, toList_fileName, List.append_assoc, List.append_assoc] at hchars
  exact Date.text_injective
    (congrArg String.ofList (List.append_cancel_right (List.append_cancel_left hchars)))

theorem of_mem_fileName {day : Date} {c : Char} (h : c ∈ (fileName day).toList) :
    c.toNat < 128 ∧ c ≠ '/' ∧ c ≠ '\x00' := by
  have hfixed : ∀ c ∈ "transfer-audit-".toList ++ ".jsonl".toList,
      c.toNat < 128 ∧ c ≠ '/' ∧ c ≠ '\x00' := by
    have hall : ("transfer-audit-".toList ++ ".jsonl".toList).all
        (fun c => decide (c.toNat < 128 ∧ c ≠ '/' ∧ c ≠ '\x00')) = true := by decide
    exact fun c hc => of_decide_eq_true (List.all_eq_true.mp hall c hc)
  rw [toList_fileName, List.mem_append, List.mem_append] at h
  rcases h with (h | h) | h
  · exact hfixed c (List.mem_append_left _ h)
  · refine ⟨Date.toNat_lt_of_mem_chars h, ?_⟩
    rcases Date.of_mem_chars h with hdigit | rfl | rfl
    · exact ⟨fun heq => absurd (heq ▸ hdigit) (by decide),
        fun heq => absurd (heq ▸ hdigit) (by decide)⟩
    · decide
    · decide
  · exact hfixed c (List.mem_append_right _ h)

theorem utf8ByteSize_fileName (day : Date) :
    (fileName day).utf8ByteSize = 21 + day.chars.length := by
  have hascii : ∀ c ∈ (fileName day).toList, c.toNat < 128 := fun c hc => (of_mem_fileName hc).1
  have hprefix : "transfer-audit-".toList.length = 15 := by decide
  have hsuffix : ".jsonl".toList.length = 6 := by decide
  rw [← String.ofList_toList (s := fileName day), utf8ByteSize_of_ascii hascii, toList_fileName,
    List.length_append, List.length_append, hprefix, hsuffix]
  omega

theorem fileName_fileName (day : Date) : Files.FileName (fileName day) := by
  have hsize := utf8ByteSize_fileName day
  have hlen := day.length_chars_le
  constructor
  · exact fun h => (of_mem_fileName h).2.1 rfl
  · exact fun h => (of_mem_fileName h).2.2 rfl
  · rw [longestName]
    omega
  · intro hdot
    have hsmall : ∀ name ∈ ["", ".", ".."], name.utf8ByteSize ≤ 2 := by decide
    have := hsmall _ hdot
    omega

/-- The text of a day's file is short enough to be walked. -/
def Fits (j : Journal) (day : Date) : Prop := (j.fileOf day).utf8ByteSize ≤ longestPath

instance (j : Journal) (day : Date) : Decidable (j.Fits day) := inferInstanceAs (Decidable (_ ≤ _))

/-- Where a day's file is in the folder at a path. -/
def dayPath (p : Path) (day : Date) : Path := p ++ [fileName day]

theorem dayPath_injective {p : Path} {day day' : Date} (h : dayPath p day = dayPath p day') :
    day = day' :=
  fileName_injective (List.singleton_inj.mp (List.append_cancel_left h))

theorem free_dayPath (p : Path) (day : Date) : Files.Free (dayPath p day) :=
  (fileName_fileName day).free p

theorem locate_fileOf {j : Journal} {files : Files} {p : Path} (h : files.FolderAt j.folder p)
    (day : Date) : files.locate (j.fileOf day) =
      if j.Fits day then .ok (dayPath p day) else .error .nameTooLong := by
  rw [fileOf, h.locate_joinPath (fileName_fileName day)]
  by_cases hfits : j.Fits day
  · have hshort : ¬longestPath < (joinPath j.folder (fileName day)).utf8ByteSize :=
      Nat.not_lt_of_le hfits
    rw [if_neg hshort, if_pos hfits, dayPath]
  · have hlong : longestPath < (joinPath j.folder (fileName day)).utf8ByteSize :=
      Nat.lt_of_not_le hfits
    rw [if_pos hlong, if_neg hfits]

end Journal

end Audit

/-! ### Contents -/

namespace Files

/-- The file at the path has the content; one without content may be missing. -/
def HasContent (files : Files) (p : Path) (content : List UInt8) : Prop :=
  files.node? p = some (.file content) ∨ files.node? p = none ∧ content = []

theorem HasContent.eq {files : Files} {p : Path} {content content' : List UInt8}
    (h : files.HasContent p content) (h' : files.node? p = some (.file content')) :
    content' = content := by
  rcases h with h | ⟨h, -⟩
  · exact Node.file.inj (Option.some.inj (h'.symm.trans h))
  · cases h'.symm.trans h

/-- A file was no folder, whatever its content, so every folder stays one. -/
theorem HasContent.keepsFolders {files files' : Files} {p : Path} {content content' : List UInt8}
    (h : files.HasContent p content) (hnodes : ∀ q, files'.node? q =
      if q = p then some (.file content') else files.node? q) : files.KeepsFolders files' := by
  intro q hq
  have hne : q ≠ p := by
    rintro rfl
    rcases h with hfile | ⟨hnone, -⟩
    · cases hfile.symm.trans hq
    · cases hnone.symm.trans hq
  rw [hnodes, if_neg hne, hq]

/-- A file that is opened is there, and no other node has changed. -/
theorem exists_openAtEnd {files : Files} {text : String} {p : Path} {content : List UInt8}
    (hlocate : files.locate text = .ok p) (hfree : Free p) (h : files.HasContent p content) :
    ∃ files', files.openAtEnd text = .ok (p, files') ∧
      files'.node? p = some (.file content) ∧ ∀ q, q ≠ p → files'.node? q = files.node? q := by
  rcases h with hfile | ⟨hnone, rfl⟩
  · refine ⟨files, ?_, hfile, fun _ _ => rfl⟩
    rw [openAtEnd, hlocate, ok_bind, hfile]
  · refine ⟨files.put p (.file []), ?_, ?_, ?_⟩
    · rw [openAtEnd, hlocate, ok_bind, hnone]
    · rw [node?_put hfree, if_pos rfl]
    · intro q hq
      rw [node?_put hfree, if_neg hq]

theorem node?_writeAtEnd {files : Files} {p : Path} {content : List UInt8} (hfree : Free p)
    (h : files.node? p = some (.file content)) (bytes : List UInt8) (q : Path) :
    (files.writeAtEnd p bytes).node? q =
      if q = p then some (.file (content ++ bytes)) else files.node? q := by
  simp only [writeAtEnd, h, node?_put hfree]

end Files

namespace Audit

open Journal

namespace Writer

/-- A writer of the folder at a path: what it has open is a day's file of that folder, which is
    there, and the way to it is open. -/
structure At (w : Writer) (p : Path) (files : Files) : Prop where
  folder_at : files.FolderAt w.journal.folder p
  path : ∀ file ∈ w.current, file.path = dayPath p file.day
  there : ∀ file ∈ w.current, ∃ content, files.node? file.path = some (.file content)
  fits : ∀ file ∈ w.current, w.journal.Fits file.day

theorem at_of_closed {j : Journal} {p : Path} {files : Files} (h : files.FolderAt j.folder p) :
    ({ journal := j } : Writer).At p files where
  folder_at := h
  path _ hfile := by cases hfile
  there _ hfile := by cases hfile
  fits _ hfile := by cases hfile

variable {w : Writer} {p : Path} {files : Files} {day : Date} {content : List UInt8}

/-- What a writer has open stays open as long as every folder stays a folder and every file a
    file. -/
theorem At.mono {files' : Files} (h : w.At p files) (hfolders : files.KeepsFolders files')
    (hfiles : ∀ q content, files.node? q = some (.file content) →
      ∃ content', files'.node? q = some (.file content')) : w.At p files' where
  folder_at := h.folder_at.mono hfolders
  path := h.path
  there file hfile := by
    obtain ⟨content, hcontent⟩ := h.there file hfile
    exact hfiles _ _ hcontent
  fits := h.fits

/-- After an entry the writer has the day's file open, and what it had open before may be gone. -/
theorem At.logged {files' : Files} {content' : List UInt8} (h : w.At p files)
    (hfits : w.journal.Fits day) (hcontent : files.HasContent (dayPath p day) content)
    (hnodes : ∀ q, files'.node? q =
      if q = dayPath p day then some (.file content') else files.node? q) :
    ({ w with current := some ⟨day, dayPath p day⟩ } : Writer).At p files' where
  folder_at := h.folder_at.mono (hcontent.keepsFolders hnodes)
  path := by
    rintro _ ⟨⟩
    rfl
  there := by
    rintro _ ⟨⟩
    exact ⟨content', by rw [hnodes, if_pos rfl]⟩
  fits := by
    rintro _ ⟨⟩
    exact hfits

theorem exists_dayFile (h : w.At p files) (hfits : w.journal.Fits day)
    (hcontent : files.HasContent (dayPath p day) content) :
    ∃ files', w.dayFile day files = .ok (⟨day, dayPath p day⟩, files') ∧
      files'.node? (dayPath p day) = some (.file content) ∧
      ∀ q, q ≠ dayPath p day → files'.node? q = files.node? q := by
  -- when no file is open, or one of another day, the day's file is opened
  have hopen : ∃ files', w.journal.openDay day files = .ok (⟨day, dayPath p day⟩, files') ∧
      files'.node? (dayPath p day) = some (.file content) ∧
      ∀ q, q ≠ dayPath p day → files'.node? q = files.node? q := by
    have hlocate : files.locate (w.journal.fileOf day) = .ok (dayPath p day) := by
      rw [locate_fileOf h.folder_at, if_pos hfits]
    obtain ⟨files', hopened, hrest⟩ :=
      Files.exists_openAtEnd hlocate (free_dayPath p day) hcontent
    exact ⟨files', by rw [openDay, hopened], hrest⟩
  cases hcurrent : w.current with
  | none => simpa only [dayFile, hcurrent] using hopen
  | some file =>
    by_cases hday : file.day = day
    · -- the file that is open is the day's file
      subst hday
      obtain ⟨content', hthere⟩ := h.there file hcurrent
      have hpath := h.path file hcurrent
      rw [hpath] at hthere
      have hsame : file = ⟨file.day, dayPath p file.day⟩ := by rw [← hpath]
      refine ⟨files, ?_, ?_, fun _ _ => rfl⟩
      · rw [dayFile, hcurrent, ← hsame]
        simp
      · rw [hthere, hcontent.eq hthere]
    · simpa only [dayFile, hcurrent, if_neg hday] using hopen

/-- **An entry is accepted if the way to its day's file is open.**  Its line comes to the end of
    that file, whatever the writer had open, and nothing else changes. -/
theorem log_spec {e : Entry} (h : w.At p files) (hfits : w.journal.Fits e.timestamp.date)
    (hcontent : files.HasContent (dayPath p e.timestamp.date) content) :
    ∃ files', w.log e files =
        (.ok (), { w with current := some ⟨e.timestamp.date, dayPath p e.timestamp.date⟩ }, files') ∧
      ∀ q, files'.node? q = if q = dayPath p e.timestamp.date
        then some (.file (content ++ bytesOf (e.line ++ "\n"))) else files.node? q := by
  obtain ⟨files', hfile, hthere, hrest⟩ := exists_dayFile h hfits hcontent
  refine ⟨_, by rw [log, hfile], fun q => ?_⟩
  rw [Files.node?_writeAtEnd (free_dayPath p _) hthere]
  split
  · rfl
  · next hq => exact hrest q hq

/-- **An entry is refused if the way to its day's file is too long**, and the files stay as they
    are. -/
theorem log_refused {e : Entry} (h : w.At p files)
    (hlong : ¬w.journal.Fits e.timestamp.date) : w.log e files =
      (.error (.auditUnopened (w.journal.fileOf e.timestamp.date) .nameTooLong),
        { w with current := none }, files) := by
  have hopen : w.journal.openDay e.timestamp.date files =
      .error (.auditUnopened (w.journal.fileOf e.timestamp.date) .nameTooLong) := by
    have hlocate : files.locate (w.journal.fileOf e.timestamp.date) = .error .nameTooLong := by
      rw [locate_fileOf h.folder_at, if_neg hlong]
    rw [openDay, Files.openAtEnd, hlocate]
    rfl
  -- the file that is open cannot be the day's, as the way to it was short enough
  have hfile : w.dayFile e.timestamp.date files = w.journal.openDay e.timestamp.date files := by
    cases hcurrent : w.current with
    | none => simp only [dayFile, hcurrent]
    | some file =>
      have hday : file.day ≠ e.timestamp.date := fun heq => hlong (heq ▸ h.fits file hcurrent)
      simp only [dayFile, hcurrent, if_neg hday]
  rw [log, hfile, hopen]

end Writer

end Audit

end SignOff
