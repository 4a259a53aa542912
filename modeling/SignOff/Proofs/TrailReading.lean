/-
  SignOff/Proofs/TrailReading.lean
  ================================
  **Reading any day's file.**  A day's file may hold anything: what others have written, halves
  of lines, bytes that are no text.  It consists of lines, and either every line keeps an entry,
  or there is a first one that does not.  In the first case a trail is the kept entries of its
  transfer; in the second that first line alone decides the error (`trail_reading`).

  An entry that is written to a file of the first kind becomes one more line, unless the last line
  has no end.  So it extends its transfer's trail of the day, and no other, by the entry as it is
  read back.

  All this is about what a journal finds of the day.  A journal that spells its folder with too
  long a text finds nothing of a file that another one reads.
-/
import SignOff.Proofs.LogRoundTrip
import Mathlib.Data.List.Forall2

namespace SignOff.Audit

open Text Journal

variable {path : String} {n : Nat} {line content : List UInt8} {ls : List (List UInt8)} {e : Entry}
  {es : List Entry} {why : Error} {j : Journal} {day : Date} {p : Path} {files files' : Files}
  {w : Writer}

/-! ### Lines -/

/-- The line is a text, and the text is read as the entry. -/
def Keeps (line : List UInt8) (e : Entry) : Prop := ∃ s, bytesOf s = line ∧ Entry.ofLine? s = some e

/-- What is reported of a line that keeps no entry, and stands in this place. -/
inductive Fault (path : String) (n : Nat) (line : List UInt8) : Error → Prop
  | notText (no_text : ∀ s, bytesOf s ≠ line) : Fault path n line (.auditUnread path .notUtf8)
  | notEntry {s : String} (text : bytesOf s = line) (no_entry : Entry.ofLine? s = none) :
    Fault path n line (.badEntry path n)

theorem entriesOf_of_keeps (h : Keeps line e) (rest : List (List UInt8)) :
    entriesOf path n (line :: rest) = (entriesOf path (n + 1) rest).map fun es => e :: es := by
  obtain ⟨s, htext, hentry⟩ := h
  rw [entriesOf, textOf?_eq_some_iff.mpr htext]
  simp only [hentry]

theorem entriesOf_of_fault (h : Fault path n line why) (rest : List (List UInt8)) :
    entriesOf path n (line :: rest) = .error why := by
  cases h with
  | notText no_text =>
    have hnone : textOf? line = none := by
      rw [Option.eq_none_iff_forall_ne_some]
      exact fun s hs => no_text s (textOf?_eq_some_iff.mp hs)
    rw [entriesOf, hnone]
  | notEntry text no_entry =>
    rw [entriesOf, textOf?_eq_some_iff.mpr text]
    simp only [no_entry]

theorem keeps_or_fault (path : String) (n : Nat) (line : List UInt8) :
    (∃ e, Keeps line e) ∨ ∃ why, Fault path n line why := by
  cases htext : textOf? line with
  | none =>
    refine .inr ⟨_, .notText fun s hs => ?_⟩
    rw [textOf?_eq_some_iff.mpr hs] at htext
    cases htext
  | some s =>
    rw [textOf?_eq_some_iff] at htext
    cases hentry : Entry.ofLine? s with
    | none => exact .inr ⟨_, .notEntry htext hentry⟩
    | some e => exact .inl ⟨e, s, htext, hentry⟩

theorem Fault.io (h : Fault path n line why) : why.kind = .io := by
  cases h <;> rfl

/-! ### Files -/

/-- **The entries are read if every line keeps one.** -/
theorem entriesOf_eq_ok_iff : entriesOf path n ls = .ok es ↔ List.Forall₂ Keeps ls es := by
  induction ls generalizing n es with
  | nil =>
    rw [entriesOf, List.forall₂_nil_left_iff, Except.ok.injEq, eq_comm]
  | cons line rest ih =>
    constructor
    · intro h
      rcases keeps_or_fault path n line with ⟨e, he⟩ | ⟨why, hfault⟩
      · rw [entriesOf_of_keeps he] at h
        obtain ⟨more, hmore, rfl⟩ := exists_of_map_eq_ok h
        exact .cons he (ih.mp hmore)
      · rw [entriesOf_of_fault hfault] at h
        cases h
    · intro h
      cases h with
      | cons he hmore => rw [entriesOf_of_keeps he, ih.mpr hmore, Except.map]

/-- **The first line that keeps no entry decides the error.** -/
theorem entriesOf_eq_error_iff : entriesOf path n ls = .error why ↔
    ∃ good line rest, ls = good ++ line :: rest ∧ (∀ l ∈ good, ∃ e, Keeps l e) ∧
      Fault path (n + good.length) line why := by
  constructor
  · intro h
    induction ls generalizing n with
    | nil => cases h
    | cons line rest ih =>
      rcases keeps_or_fault path n line with ⟨e, he⟩ | ⟨why', hfault⟩
      · rw [entriesOf_of_keeps he] at h
        cases hmore : entriesOf path (n + 1) rest with
        | ok es =>
          rw [hmore] at h
          cases h
        | error why' =>
          rw [hmore] at h
          cases h
          obtain ⟨good, bad, more, rfl, hgood, hbad⟩ := ih hmore
          refine ⟨line :: good, bad, more, rfl, ?_, ?_⟩
          · rw [List.forall_mem_cons]
            exact ⟨⟨e, he⟩, hgood⟩
          · rwa [List.length_cons, ← Nat.add_assoc, Nat.add_right_comm]
      · rw [entriesOf_of_fault hfault] at h
        cases h
        exact ⟨[], line, rest, rfl, List.forall_mem_nil _, hfault⟩
  · rintro ⟨good, line, rest, rfl, hgood, hfault⟩
    induction good generalizing n with
    | nil => exact entriesOf_of_fault hfault rest
    | cons l good ih =>
      rw [List.forall_mem_cons] at hgood
      obtain ⟨⟨e, he⟩, hgood⟩ := hgood
      rw [List.length_cons, ← Nat.add_assoc, Nat.add_right_comm] at hfault
      rw [List.cons_append, entriesOf_of_keeps he, ih hgood hfault, Except.map]

/-- The day's file, as the journal finds it, has the content; one without content may be
    missing. -/
def Journal.Finds (j : Journal) (day : Date) (files : Files) (content : List UInt8) : Prop :=
  files.read (j.fileOf day) = .ok content ∨
    files.read (j.fileOf day) = .error .missing ∧ content = []

theorem Journal.Finds.trail_eq (h : j.Finds day files content) (transferId : String) :
    j.trail transferId day files = (entriesOf (j.fileOf day) 1 (lines content)).map fun es =>
      es.filter fun e => e.transferId = some transferId := by
  rcases h with hread | ⟨hmissing, rfl⟩
  · rw [trail, hread]
  · rw [trail, hmissing]
    rfl

/-- A writer of the folder can reach the file that the journal finds. -/
theorem Journal.Finds.hasContent (h : j.Finds day files content) (hp : files.FolderAt j.folder p) :
    j.Fits day ∧ files.HasContent (dayPath p day) content := by
  have hlocate := locate_fileOf hp day
  by_cases hfits : j.Fits day
  · rw [if_pos hfits] at hlocate
    rw [Finds, Files.read, hlocate, ok_bind] at h
    refine ⟨hfits, ?_⟩
    cases hnode : files.node? (dayPath p day) with
    | none =>
      rw [hnode] at h
      rcases h with hread | ⟨-, hempty⟩
      · cases hread
      · exact .inr ⟨hnode, hempty⟩
    | some node =>
      rw [hnode] at h
      cases node with
      | file content' =>
        rcases h with hread | ⟨hread, -⟩
        · cases hread
          exact .inl hnode
        · cases hread
      | _ => rcases h with hread | ⟨hread, -⟩ <;> cases hread
  · rw [if_neg hfits] at hlocate
    rw [Finds, Files.read, hlocate] at h
    rcases h with hread | ⟨hread, -⟩ <;> cases hread

/-- What stands in the way to a day's file is the same, so it is read alike. -/
theorem Journal.read_congr (hp : files.FolderAt j.folder p) (hp' : files'.FolderAt j.folder p)
    (hnode : files'.node? (dayPath p day) = files.node? (dayPath p day)) :
    files'.read (j.fileOf day) = files.read (j.fileOf day) := by
  have hlocate := locate_fileOf hp day
  have hlocate' := locate_fileOf hp' day
  by_cases hfits : j.Fits day
  · rw [if_pos hfits] at hlocate hlocate'
    rw [Files.read, Files.read, hlocate, hlocate', ok_bind, ok_bind, hnode]
  · rw [if_neg hfits] at hlocate hlocate'
    rw [Files.read, Files.read, hlocate, hlocate']
    rfl

/-! ### One more entry -/

/-- The entry has come to the end of its day's file, after this content, and that is all that can
    be read of it. -/
structure Journal.Extended (j : Journal) (e : Entry) (content : List UInt8)
    (files files' : Files) : Prop where
  read : files'.read (j.fileOf e.timestamp.date) = .ok (content ++ bytesOf (e.line ++ "\n"))
  trail : ∀ transferId, j.trail transferId e.timestamp.date files' =
    (j.trail transferId e.timestamp.date files).map fun es =>
      es ++ if e.transferId = some transferId then [e.asRead] else []
  others : ∀ transferId day, day ≠ e.timestamp.date →
    j.trail transferId day files' = j.trail transferId day files

theorem bytesOf_line (e : Entry) : bytesOf (e.line ++ "\n") = bytesOf e.line ++ [lineFeed] :=
  bytesOf_append e.line "\n"

theorem keeps_line (e : Entry) : Keeps (bytesOf e.line) e.asRead :=
  ⟨e.line, rfl, e.ofLine?_line⟩

/-- The trail of a file whose lines all keep entries. -/
theorem Journal.Finds.trail_of_keeps (h : j.Finds day files content) (hsplit : Splits content ls)
    (hkeeps : List.Forall₂ Keeps ls es) (transferId : String) :
    j.trail transferId day files = .ok (es.filter fun e => e.transferId = some transferId) := by
  rw [h.trail_eq, hsplit.lines_eq, entriesOf_eq_ok_iff.mpr hkeeps, Except.map]

theorem Writer.log_extends (hat : w.At p files)
    (h : w.journal.Finds e.timestamp.date files content) (hsplit : Splits content ls)
    (hkeeps : List.Forall₂ Keeps ls es) (hended : Ended content) :
    ∃ w' files', w.log e files = (.ok (), w', files') ∧
      w.journal.Extended e content files files' := by
  obtain ⟨hfits, hcontent⟩ := h.hasContent hat.folder_at
  obtain ⟨files', hlog, hnodes⟩ := log_spec hat hfits hcontent
  have hp' := hat.folder_at.mono (hcontent.keepsFolders hnodes)
  have hread : files'.read (w.journal.fileOf e.timestamp.date) =
      .ok (content ++ bytesOf (e.line ++ "\n")) := by
    have hlocate := locate_fileOf hp' e.timestamp.date
    rw [if_pos hfits] at hlocate
    rw [Files.read, hlocate, ok_bind, hnodes, if_pos rfl]
  have hmore : Splits (content ++ bytesOf (e.line ++ "\n")) (ls ++ [bytesOf e.line]) := by
    rw [bytesOf_line]
    exact hsplit.concat hended e.unbroken_line
  have hmorekeeps : List.Forall₂ Keeps (ls ++ [bytesOf e.line]) (es ++ [e.asRead]) :=
    List.rel_append hkeeps (.cons (keeps_line e) .nil)
  refine ⟨_, files', hlog, hread, ?_, ?_⟩
  · intro transferId
    rw [Finds.trail_of_keeps (.inl hread) hmore hmorekeeps, h.trail_of_keeps hsplit hkeeps,
      Except.map, List.filter_append, List.filter_singleton]
    have htransfer : e.asRead.transferId = e.transferId := rfl
    simp [htransfer]
  · intro transferId day hday
    have hother : dayPath p day ≠ dayPath p e.timestamp.date :=
      fun heq => hday (dayPath_injective heq)
    have hsame : files'.read (w.journal.fileOf day) = files.read (w.journal.fileOf day) :=
      read_congr hat.folder_at hp' (by rw [hnodes, if_neg hother])
    rw [Journal.trail, Journal.trail, hsame]

/-! ### Any file -/

/-- **A day's file may hold anything.**  It consists of lines in one way.  A trail of the day is
    read if and only if every line keeps an entry, and then it is the kept entries of its
    transfer, in order.  Otherwise the first line that keeps none is reported, whichever transfer
    the lines before it belong to.  If every line keeps an entry and the last one has an end, a
    further entry of the day is accepted from any writer: everything stays in front of it, and the
    trail of its transfer has one entry more.  This is the entry itself if its owner has a kind that
    its name stands for and its instant is one of universal time, and only then. -/
theorem trail_reading (h : j.Finds day files content) :
    ∃ ls, (∀ ls', Splits content ls' ↔ ls' = ls) ∧
      (∀ transferId es, j.trail transferId day files = .ok es ↔
        ∃ all, List.Forall₂ Keeps ls all ∧
          es = all.filter fun e => e.transferId = some transferId) ∧
      (∀ transferId why, j.trail transferId day files = .error why ↔
        ∃ good line rest, ls = good ++ line :: rest ∧ (∀ l ∈ good, ∃ e, Keeps l e) ∧
          Fault (j.fileOf day) (good.length + 1) line why ∧ why.kind = .io) ∧
      (∀ (w : Writer) (p : Path) (e : Entry), w.journal = j → w.At p files →
        e.timestamp.date = day → (∃ all, List.Forall₂ Keeps ls all) → Ended content →
        ∃ w' files', w.log e files = (.ok (), w', files') ∧ j.Extended e content files files') ∧
      ∀ e : Entry, e.asRead = e ↔ e.Faithful := by
  refine ⟨lines content, ?_, ?_, ?_, ?_, fun e => Entry.asRead_eq_self_iff⟩
  · intro ls'
    rw [splits_iff, eq_comm]
  · intro transferId es
    rw [h.trail_eq]
    constructor
    · intro htrail
      obtain ⟨all, hall, hes⟩ := exists_of_map_eq_ok htrail
      exact ⟨all, entriesOf_eq_ok_iff.mp hall, hes.symm⟩
    · rintro ⟨all, hall, rfl⟩
      rw [entriesOf_eq_ok_iff.mpr hall, Except.map]
  · intro transferId why
    rw [h.trail_eq, map_eq_error_iff, entriesOf_eq_error_iff]
    constructor
    · rintro ⟨good, line, rest, hls, hgood, hfault⟩
      rw [Nat.add_comm] at hfault
      exact ⟨good, line, rest, hls, hgood, hfault, hfault.io⟩
    · rintro ⟨good, line, rest, hls, hgood, hfault, -⟩
      rw [Nat.add_comm] at hfault
      exact ⟨good, line, rest, hls, hgood, hfault⟩
  · rintro w p e rfl hat rfl ⟨all, hall⟩ hended
    exact Writer.log_extends hat h (splits_lines content) hall hended

/-- A folder with one day's file in it. -/
def Sample.oneDay (content : List UInt8) : Files :=
  ⟨[(["audit"], .folder), (dayPath ["audit"] lastDay, .file content)]⟩

/-- A line with two bytes at its end, an empty one, and one that is no text. -/
def Sample.damaged : List UInt8 :=
  bytesOf sold.line ++ carriageReturn :: lineFeed :: ([] ++ lineFeed :: [255])

def Sample.undamaged : List UInt8 := bytesOf sold.line ++ lineFeed :: []

theorem folderAt_oneDay (content : List UInt8) :
    (Sample.oneDay content).FolderAt "audit" ["audit"] := .inr ⟨rfl, rfl⟩

theorem finds_oneDay (content : List UInt8) :
    (Journal.mk "audit").Finds Sample.lastDay (Sample.oneDay content) content := by
  have hlocate : (Sample.oneDay content).locate ((Journal.mk "audit").fileOf Sample.lastDay) =
      .ok (dayPath ["audit"] Sample.lastDay) := by
    have hfits : (Journal.mk "audit").Fits Sample.lastDay := by decide +kernel
    rw [locate_fileOf (folderAt_oneDay content), if_pos hfits]
  have hnode : (Sample.oneDay content).node? (dayPath ["audit"] Sample.lastDay) =
      some (.file content) := by
    rw [Files.node?_of_free (free_dayPath _ _)]
    simp [Sample.oneDay, dayPath]
  refine .inl ?_
  rw [Files.read, hlocate, ok_bind, hnode]

/-- The lines of the undamaged file, and what they keep. -/
theorem keeps_undamaged : Splits Sample.undamaged [bytesOf Sample.sold.line] ∧
    List.Forall₂ Keeps [bytesOf Sample.sold.line] [Sample.sold] := by
  have hsold : Sample.sold.asRead = Sample.sold := by decide +kernel
  refine ⟨.ended Sample.sold.unbroken_line .nil, .cons ?_ .nil⟩
  have hkeeps := keeps_line Sample.sold
  rwa [hsold] at hkeeps

/-- The empty line is reported of a file whose third line is worse, and an entry is written to a
    file that is whole. -/
theorem oneDay_read :
    (Journal.mk "audit").Finds Sample.lastDay (Sample.oneDay Sample.damaged) Sample.damaged ∧
      (∀ transferId, (Journal.mk "audit").trail transferId Sample.lastDay
        (Sample.oneDay Sample.damaged) =
          .error (.badEntry "audit/transfer-audit-2016-12-31.jsonl" 2)) ∧
      ∃ w' files', ({ journal := ⟨"audit"⟩ } : Writer).log Sample.closed
          (Sample.oneDay Sample.undamaged) = (.ok (), w', files') ∧
        (Journal.mk "audit").Extended Sample.closed Sample.undamaged
          (Sample.oneDay Sample.undamaged) files' ∧
        (Journal.mk "audit").trail "sale" Sample.lastDay files' =
          .ok [Sample.sold, Sample.closed] := by
  obtain ⟨hlines, hkeeps⟩ := keeps_undamaged
  have hline := Sample.sold.unbroken_line
  refine ⟨finds_oneDay _, ?_, ?_⟩
  · intro transferId
    obtain ⟨ls, hsplits, -, herror, -⟩ := trail_reading (finds_oneDay Sample.damaged)
    have hempty : Unbroken [] := ⟨List.not_mem_nil, nofun⟩
    obtain rfl : [bytesOf Sample.sold.line, [], [255]] = ls :=
      (hsplits _).mp (.returned hline.no_feed (.ended hempty (.unended (by decide) (by decide))))
    refine (herror transferId _).mpr ⟨[bytesOf Sample.sold.line], [], [[255]], rfl, ?_, ?_, rfl⟩
    · rw [List.forall_mem_singleton]
      exact ⟨_, keeps_line Sample.sold⟩
    · exact .notEntry (s := "") rfl rfl
  · obtain ⟨ls, hsplits, htrail, -, hmore, -⟩ := trail_reading (finds_oneDay Sample.undamaged)
    obtain rfl : [bytesOf Sample.sold.line] = ls := (hsplits _).mp hlines
    obtain ⟨w', files', hlog, hextended⟩ := hmore { journal := ⟨"audit"⟩ } ["audit"] Sample.closed
      rfl (Writer.at_of_closed (folderAt_oneDay _)) rfl ⟨_, hkeeps⟩ (.inr List.getLast?_concat)
    refine ⟨w', files', hlog, hextended, ?_⟩
    have hday : Sample.closed.timestamp.date = Sample.lastDay := rfl
    rw [← hday, hextended.trail, hday, (htrail "sale" _).mpr ⟨_, hkeeps, rfl⟩]
    decide +kernel

/-- A file whose only line keeps an entry is not read by a journal that spells its folder with
    too long a text.  And an entry whose instant is not one of universal time extends the trail by
    another one. -/
theorem not_always_extended :
    (∃ files : Files, files.FolderAt (Sample.dots 2033) [] ∧
      files.node? (dayPath [] Sample.lastDay) = some (.file Sample.undamaged) ∧
      (∃ ls, Splits Sample.undamaged ls ∧ List.Forall₂ Keeps ls [Sample.sold]) ∧
      (Journal.mk (Sample.dots 2033)).trail "sale" Sample.lastDay files =
        .error (.auditUnopened ((Journal.mk (Sample.dots 2033)).fileOf Sample.lastDay)
          .nameTooLong)) ∧
    ∃ w' files' e, ({ journal := ⟨"audit"⟩ } : Writer).log Sample.within
        (Sample.oneDay Sample.undamaged) = (.ok (), w', files') ∧ e ≠ Sample.within ∧
      (Journal.mk "audit").trail "sale" Sample.lastDay files' = .ok [Sample.sold, e] := by
  obtain ⟨hlines, hkeeps⟩ := keeps_undamaged
  constructor
  · let files : Files := ⟨[(dayPath [] Sample.lastDay, .file Sample.undamaged)]⟩
    have hp : files.FolderAt (Sample.dots 2033) [] := folderAt_dots _ (by decide) (by decide)
    have hnode : files.node? (dayPath [] Sample.lastDay) = some (.file Sample.undamaged) := by
      rw [Files.node?_of_free (free_dayPath _ _)]
      simp [files]
    exact ⟨files, hp, hnode, ⟨_, hlines, hkeeps⟩, trail_of_long hp not_fits_dots "sale"⟩
  · obtain ⟨w', files', hlog, hextended⟩ := Writer.log_extends
      (Writer.at_of_closed (folderAt_oneDay _)) (finds_oneDay Sample.undamaged) hlines hkeeps
      (.inr List.getLast?_concat) (e := Sample.within)
    refine ⟨w', files', Sample.within.asRead, hlog, by decide +kernel, ?_⟩
    have hday : Sample.within.timestamp.date = Sample.lastDay := rfl
    rw [← hday, hextended.trail, hday,
      (finds_oneDay Sample.undamaged).trail_of_keeps hlines hkeeps]
    decide +kernel

end SignOff.Audit
