/-
  SignOff/Proofs/LogRoundTrip.lean
  ================================
  **What is logged is read.**  Any number of writers may be opened on a folder that has no day
  files, and entries may be given to them in any order (`Logged`).  Whatever they have open,
  every day's file then holds the lines of exactly the accepted entries of that day, in order
  (`Standing`): that is what one call preserves, and so all calls.  Since a line is read back
  as its entry, a trail is the accepted entries of its transfer and day.

  There are two limits.  The text of a path may have 4095 bytes, and a folder with a shorter
  text can have day files whose texts are longer.  Of such a day nothing can be written or
  read, and every call says so.  And a line has room for instants of universal time only: an
  entry made within a leap second that universal time does not have is read back with the
  instant that its text shows (`Entry.asRead`).
-/
import SignOff.Proofs.Audit.Writing
import SignOff.Proofs.Json.Decoding

namespace SignOff.Audit

open Text Journal

/-! ### Calls of writers -/

/-- The calls made on the folder at a path: a writer is opened, when there are no day files yet;
    then further writers are opened and entries given to them in any order.  Listed are the
    entries that were accepted, the writers as they are now, and the files. -/
inductive Logged (p : Path) : List Entry → List Writer → Files → Prop where
  /-- the first writer is opened, by a text that leads to the folder once the folder is there;
      nothing is where a day's file would be -/
  | first {folder : String} {before files : Files} {w : Writer}
    (hopen : Writer.start folder before = (.ok w, files)) (hp : files.FolderAt folder p)
    (hbare : ∀ day, files.node? (dayPath p day) = none) :
    Logged p [] [w] files
  /-- a further writer is opened, by a text that leads to the folder -/
  | opened {folder : String} {es : List Entry} {ws : List Writer} {files files' : Files}
    {w : Writer} (h : Logged p es ws files) (hp : files.FolderAt folder p)
    (hopen : Writer.start folder files = (.ok w, files')) :
    Logged p es (ws ++ [w]) files'
  /-- an entry is given to one of the writers, which accepts it -/
  | accepted {es : List Entry} {ws : List Writer} {files files' : Files} {w w' : Writer} {i : Nat}
    {e : Entry} (h : Logged p es ws files) (hw : ws[i]? = some w)
    (hlog : w.log e files = (.ok (), w', files')) :
    Logged p (es ++ [e]) (ws.set i w') files'
  /-- an entry is given to one of the writers, which refuses it -/
  | refused {es : List Entry} {ws : List Writer} {files files' : Files} {w w' : Writer} {i : Nat}
    {e : Entry} {why : Error} (h : Logged p es ws files) (hw : ws[i]? = some w)
    (hlog : w.log e files = (.error why, w', files')) :
    Logged p es (ws.set i w') files'

/-! ### What one call preserves -/

/-- The lines of some entries. -/
def written (es : List Entry) : List UInt8 := es.flatMap fun e => bytesOf (e.line ++ "\n")

/-- The entries of a day. -/
def ofDay (day : Date) (es : List Entry) : List Entry := es.filter fun e => e.timestamp.date = day

theorem written_append (es es' : List Entry) : written (es ++ es') = written es ++ written es' :=
  List.flatMap_append

theorem ofDay_append (day : Date) (es es' : List Entry) :
    ofDay day (es ++ es') = ofDay day es ++ ofDay day es' :=
  List.filter_append ..

/-- The line of an entry comes to the end of its day's file, and no other day's file changes. -/
theorem hasContent_logged {p : Path} {files files' : Files} {e : Entry} {day : Date}
    (content : Date → List UInt8) (h : files.HasContent (dayPath p day) (content day))
    (hnodes : ∀ q, files'.node? q = if q = dayPath p e.timestamp.date
      then some (.file (content e.timestamp.date ++ bytesOf (e.line ++ "\n"))) else files.node? q) :
    files'.HasContent (dayPath p day) (content day ++ written (ofDay day [e])) := by
  by_cases hday : e.timestamp.date = day
  · subst hday
    refine .inl ?_
    rw [hnodes, if_pos rfl]
    simp [ofDay, written]
  · have hother : dayPath p day ≠ dayPath p e.timestamp.date :=
      fun heq => hday (dayPath_injective heq).symm
    have hnone : content day ++ written (ofDay day [e]) = content day := by
      simp [ofDay, written, hday]
    rw [hnone, Files.HasContent, hnodes, if_neg hother]
    exact h

/-- Every writer is one of the folder, and every day's file holds the lines of the day's
    entries. -/
structure Standing (p : Path) (es : List Entry) (ws : List Writer) (files : Files) : Prop where
  writers : ∀ w ∈ ws, w.At p files
  content : ∀ day, files.HasContent (dayPath p day) (written (ofDay day es))

variable {p : Path} {es : List Entry} {ws : List Writer} {files files' : Files} {folder : String}
  {w w' : Writer} {e : Entry} {i : Nat}

theorem start_eq {before : Files} (h : Writer.start folder before = (.ok w, files)) :
    before.createFolders folder = (.ok (), files) ∧ w = { journal := ⟨folder⟩ } := by
  rw [Writer.start, Journal.start] at h
  cases hmade : before.createFolders folder with
  | mk result made =>
    rw [hmade] at h
    cases result with
    | ok => cases h; exact ⟨rfl, rfl⟩
    | error why => cases h

theorem standing_first {before : Files} (hopen : Writer.start folder before = (.ok w, files))
    (hp : files.FolderAt folder p) (hbare : ∀ day, files.node? (dayPath p day) = none) :
    Standing p [] [w] files where
  writers w' hw' := by
    rw [List.mem_singleton.mp hw', (start_eq hopen).2]
    exact Writer.at_of_closed hp
  content day := .inr ⟨hbare day, rfl⟩

/-- A further writer finds the folder there and changes nothing. -/
theorem Standing.opened (h : Standing p es ws files) (hp : files.FolderAt folder p)
    (hopen : Writer.start folder files = (.ok w, files')) : Standing p es (ws ++ [w]) files' := by
  obtain ⟨hmade, hw⟩ := start_eq hopen
  obtain rfl : files = files' := congrArg Prod.snd (hp.createFolders_eq.symm.trans hmade)
  refine ⟨fun w' hw' => ?_, h.content⟩
  rcases List.mem_append.mp hw' with hw' | hw'
  · exact h.writers w' hw'
  · rw [List.mem_singleton.mp hw', hw]
    exact Writer.at_of_closed hp

/-- **An accepted entry comes to the end of its day, and no other day changes.** -/
theorem Standing.accepted (h : Standing p es ws files) (hw : ws[i]? = some w)
    (hlog : w.log e files = (.ok (), w', files')) :
    Standing p (es ++ [e]) (ws.set i w') files' := by
  have hat := h.writers w (List.mem_of_getElem? hw)
  by_cases hfits : w.journal.Fits e.timestamp.date
  case neg =>
    rw [Writer.log_refused hat hfits] at hlog
    cases hlog
  obtain ⟨files₁, hlogged, hnodes⟩ := Writer.log_spec hat hfits (h.content e.timestamp.date)
  rw [hlogged] at hlog
  cases hlog
  -- every folder stays, and every file stays a file
  have hfolders := (h.content e.timestamp.date).keepsFolders hnodes
  have hfiles : ∀ q content, files.node? q = some (.file content) →
      ∃ content', files'.node? q = some (.file content') := by
    intro q content hq
    rw [hnodes]
    split
    · exact ⟨_, rfl⟩
    · exact ⟨content, hq⟩
  constructor
  · intro w' hw'
    rcases List.mem_or_eq_of_mem_set hw' with hw' | rfl
    · exact (h.writers w' hw').mono hfolders hfiles
    · exact hat.logged hfits (h.content _) hnodes
  · intro day
    rw [ofDay_append, written_append]
    exact hasContent_logged (fun day => written (ofDay day es)) (h.content day) hnodes

theorem Standing.refused {why : Error} (h : Standing p es ws files) (hw : ws[i]? = some w)
    (hlog : w.log e files = (.error why, w', files')) : Standing p es (ws.set i w') files' := by
  have hat := h.writers w (List.mem_of_getElem? hw)
  by_cases hfits : w.journal.Fits e.timestamp.date
  · obtain ⟨files₁, hlogged, -⟩ := Writer.log_spec hat hfits (h.content e.timestamp.date)
    rw [hlogged] at hlog
    cases hlog
  · rw [Writer.log_refused hat hfits] at hlog
    cases hlog
    refine ⟨fun w' hw' => ?_, h.content⟩
    rcases List.mem_or_eq_of_mem_set hw' with hw' | rfl
    · exact h.writers w' hw'
    · exact Writer.at_of_closed hat.folder_at

/-- **After any calls every day's file holds the lines of the day's entries.** -/
theorem Logged.standing (h : Logged p es ws files) : Standing p es ws files := by
  induction h with
  | first hopen hp hbare => exact standing_first hopen hp hbare
  | opened _ hp hopen ih => exact ih.opened hp hopen
  | accepted _ hw hlog ih => exact ih.accepted hw hlog
  | refused _ hw hlog ih => exact ih.refused hw hlog

/-- **Every sequence of calls is accepted as long as the ways to its days are open.**  The
    entries may go to the writers in any order. -/
theorem Logged.exists_accepted (calls : List (Nat × Entry)) (h : Logged p es ws files)
    (hcalls : ∀ c ∈ calls, c.1 < ws.length ∧
      ∀ j ∈ ws.map Writer.journal, j.Fits c.2.timestamp.date) :
    ∃ ws' files', ws'.map Writer.journal = ws.map Writer.journal ∧
      Logged p (es ++ calls.map fun c => c.2) ws' files' := by
  induction calls generalizing es ws files with
  | nil => exact ⟨ws, files, rfl, by simpa using h⟩
  | cons c calls ih =>
    obtain ⟨hplace, hfits⟩ := hcalls c List.mem_cons_self
    have hmem : ws[c.1] ∈ ws := List.getElem_mem hplace
    obtain ⟨files', hlogged, -⟩ := Writer.log_spec (h.standing.writers _ hmem)
      (hfits _ (List.mem_map_of_mem hmem)) (h.standing.content _)
    have hnext := h.accepted (List.getElem?_eq_getElem hplace) hlogged
    -- a writer stays one of the same journal
    have hjournals : ∀ file, (ws.set c.1 { ws[c.1] with current := file }).map Writer.journal =
        ws.map Writer.journal := by
      intro file
      rw [List.map_set]
      exact (congrArg _ (List.getElem_map Writer.journal).symm).trans
        (List.set_getElem_self (by simpa using hplace))
    obtain ⟨ws', files'', hsame, hrest⟩ := ih hnext fun d hd => by
      rw [hjournals, List.length_set]
      exact hcalls d (List.mem_cons_of_mem c hd)
    exact ⟨ws', files'', hsame.trans (hjournals _), by simpa using hrest⟩

/-! ### Reading -/

/-- **The lines of entries are read as the entries.** -/
theorem entriesOf_lines (path : String) (n : Nat) (es : List Entry) :
    entriesOf path n (es.map fun e => bytesOf e.line) = .ok (es.map Entry.asRead) := by
  induction es generalizing n with
  | nil => rfl
  | cons e es ih =>
    rw [List.map_cons, entriesOf, textOf?_bytesOf]
    simp only [e.ofLine?_line, ih (n + 1)]
    rfl

theorem lines_of_entries (es : List Entry) :
    lines (written es) = es.map fun e => bytesOf e.line := by
  have hfeed : ∀ e : Entry, bytesOf (e.line ++ "\n") = bytesOf e.line ++ [lineFeed] :=
    fun e => bytesOf_append e.line "\n"
  have hwritten : written es =
      (es.map fun e => bytesOf e.line).flatMap fun line => line ++ [lineFeed] := by
    simp only [written, hfeed, List.flatMap_map]
  rw [hwritten]
  apply lines_written
  intro line hline
  obtain ⟨e, -, rfl⟩ := List.mem_map.mp hline
  exact e.unbroken_line

/-- A trail is read from a day's file that holds the lines of some entries. -/
theorem trail_eq {j : Journal} {day : Date} (hp : files.FolderAt j.folder p)
    (hfits : j.Fits day) (hcontent : files.HasContent (dayPath p day) (written es))
    (transferId : String) : j.trail transferId day files =
      .ok ((es.filter fun e => e.transferId = some transferId).map Entry.asRead) := by
  -- reading an entry leaves its transfer
  have hfilter : (es.map Entry.asRead).filter (fun e => e.transferId = some transferId) =
      (es.filter fun e => e.transferId = some transferId).map Entry.asRead := List.filter_map
  have hlocate : files.locate (j.fileOf day) = .ok (dayPath p day) := by
    rw [locate_fileOf hp, if_pos hfits]
  rcases hcontent with hfile | ⟨hnone, hempty⟩
  · have hread : files.read (j.fileOf day) = .ok (written es) := by
      rw [Files.read, hlocate, ok_bind, hfile]
    rw [trail, hread]
    simp only [lines_of_entries, entriesOf_lines, Except.map, hfilter]
  · have hmissing : files.read (j.fileOf day) = .error .missing := by
      rw [Files.read, hlocate, ok_bind, hnone]
    obtain rfl : es = [] := by
      have hlines := lines_of_entries es
      rw [hempty] at hlines
      simpa [lines, linesFrom] using hlines
    rw [trail, hmissing]
    rfl

theorem trail_of_long {j : Journal} {day : Date} (hp : files.FolderAt j.folder p)
    (hlong : ¬j.Fits day) (transferId : String) : j.trail transferId day files =
      .error (.auditUnopened (j.fileOf day) .nameTooLong) := by
  have hread : files.read (j.fileOf day) = .error .nameTooLong := by
    rw [Files.read, locate_fileOf hp, if_neg hlong]
    rfl
  rw [trail, hread]
  rfl

/-! ### The round trip -/

/-- **What is logged is read.**  Any number of writers were opened on a folder without day files,
    and entries were given to them in any order.  If the text of a day's file is not too long
    for a path, every trail of that day is the accepted entries of its transfer and day, as they
    are read back and in order, and every further entry of the day is accepted.  If it is too
    long, no trail of the day can be read, and no entry of the day is accepted.  An entry is read
    back as it was if its owner has a kind that its name stands for and its instant is one of
    universal time, and only then. -/
theorem log_round_trip (h : Logged p es ws files) (hw : w ∈ ws) (day : Date) :
    (w.journal.Fits day →
      (∀ transferId, w.journal.trail transferId day files =
        .ok ((es.filter fun e => e.transferId = some transferId ∧ e.timestamp.date = day).map
          Entry.asRead)) ∧
      ∀ e, e.timestamp.date = day → (w.log e files).1 = .ok ()) ∧
    (¬w.journal.Fits day →
      (∀ transferId, w.journal.trail transferId day files =
        .error (.auditUnopened (w.journal.fileOf day) .nameTooLong)) ∧
      ∀ e, e.timestamp.date = day → (w.log e files).1 =
        .error (.auditUnopened (w.journal.fileOf day) .nameTooLong)) ∧
    ∀ e : Entry, e.asRead = e ↔ e.Faithful := by
  have hat := h.standing.writers w hw
  refine ⟨?_, ?_, fun e => Entry.asRead_eq_self_iff⟩
  · intro hfits
    constructor
    · intro transferId
      rw [trail_eq hat.folder_at hfits (h.standing.content day), ofDay, List.filter_filter]
      simp only [Bool.decide_and]
    · rintro e rfl
      obtain ⟨files', hlogged, -⟩ := Writer.log_spec hat hfits (h.standing.content _)
      rw [hlogged]
  · intro hlong
    constructor
    · exact trail_of_long hat.folder_at hlong
    · rintro e rfl
      rw [Writer.log_refused hat hlong]

theorem node?_dayPath_empty (p : Path) (day : Date) : Files.empty.node? (dayPath p day) = none := by
  rw [Files.node?_of_free (free_dayPath p day)]
  rfl

theorem node?_dayPath_made (p : Path) (day : Date) :
    (Files.mk [(p, .folder)]).node? (dayPath p day) = none := by
  have hother : p ≠ dayPath p day := by simp [dayPath]
  rw [Files.node?_of_free (free_dayPath p day)]
  simp [hother]

/-- The last day of the year 2016, which had a leap second. -/
def Sample.lastDay : Date := ⟨2016, 12, 31, by decide⟩

def Sample.sold : Entry :=
  { timestamp := (Instant.ofFields? lastDay 23 59 60 500000000).get (by decide)
    event := .stepApproved, transferId := some "sale", stepId := some "first", type := some .source
    actor := some (.ofNames "service" "shop"), notes := some "two\nlines and a \"quote\"" }

/-- Long ago, and long before there were licenses. -/
def Sample.founded : Entry :=
  { timestamp := (Instant.ofFields? ⟨-753, 4, 21, by decide⟩ 6 0 0 0).get (by decide)
    event := .transferInitiated, transferId := some "sale" }

def Sample.given : Entry :=
  { timestamp := (Instant.ofFields? lastDay 12 0 0 0).get (by decide)
    event := .transferInitiated, transferId := some "gift" }

def Sample.closed : Entry :=
  { timestamp := (Instant.ofFields? lastDay 23 59 59 0).get (by decide)
    event := .transferCompleted, transferId := some "sale", state := some .approved }

/-- Within a leap second after second 30, which universal time does not have. -/
def Sample.within : Entry :=
  { timestamp := ⟨lastDay, 13, 5, 30, 1500000000, by decide, by decide, by decide, by decide⟩
    event := .stepCreated, transferId := some "sale" }

/-- A writer on a folder that has just been made. -/
theorem Logged.onAudit :
    Logged ["audit"] [] [{ journal := ⟨"audit"⟩ }] ⟨[(["audit"], .folder)]⟩ := by
  have hopen : Writer.start "audit" .empty =
      (.ok { journal := ⟨"audit"⟩ }, ⟨[(["audit"], .folder)]⟩) := by decide +kernel
  exact .first hopen (.inr (by decide +kernel)) (node?_dayPath_made _)

/-- Two writers, which spell the folder differently, take turns on two days. -/
theorem twoWriters_read : ∃ ws files,
    ws.map Writer.journal = [⟨"audit"⟩, ⟨"./audit/"⟩] ∧
      Logged ["audit"] [Sample.sold, Sample.founded, Sample.given, Sample.closed] ws files ∧
      ∀ w ∈ ws, w.journal.trail "sale" Sample.lastDay files =
        .ok [Sample.sold, Sample.closed] := by
  have hopened : Logged ["audit"] [] [{ journal := ⟨"audit"⟩ }, { journal := ⟨"./audit/"⟩ }]
      ⟨[(["audit"], .folder)]⟩ := by
    have hopen : Writer.start "./audit/" ⟨[(["audit"], .folder)]⟩ =
        (.ok { journal := ⟨"./audit/"⟩ }, ⟨[(["audit"], .folder)]⟩) := by decide +kernel
    exact Logged.onAudit.opened (.inr (by decide +kernel)) hopen
  obtain ⟨ws, files, hjournals, hlogged⟩ := hopened.exists_accepted
    [(0, Sample.sold), (1, Sample.founded), (1, Sample.given), (0, Sample.closed)]
    (by decide +kernel)
  refine ⟨ws, files, hjournals, hlogged, fun w hw => ?_⟩
  have hfits : w.journal.Fits Sample.lastDay := by
    have hall : ∀ j ∈ [Journal.mk "audit", ⟨"./audit/"⟩], j.Fits Sample.lastDay := by
      decide +kernel
    have hjournal : w.journal ∈ ws.map Writer.journal := List.mem_map_of_mem hw
    rw [hjournals] at hjournal
    exact hall _ hjournal
  rw [((log_round_trip hlogged hw Sample.lastDay).1 hfits).1 "sale"]
  decide +kernel

/-- The working folder, spelled with many dots. -/
def Sample.dots (n : Nat) : String := String.ofList (List.replicate n ['.', '/']).flatten

theorem of_mem_dots {n : Nat} {c : Char} (h : c ∈ (List.replicate n ['.', '/']).flatten) :
    c = '.' ∨ c = '/' := by
  obtain ⟨cs, hcs, hc⟩ := List.mem_flatten.mp h
  rw [List.eq_of_mem_replicate hcs] at hc
  simpa using hc

theorem utf8ByteSize_dots (n : Nat) : (Sample.dots n).utf8ByteSize = 2 * n := by
  have hascii : ∀ c ∈ (List.replicate n ['.', '/']).flatten, c.toNat < 128 := by
    intro c hc
    rcases of_mem_dots hc with rfl | rfl <;> decide
  rw [Sample.dots, utf8ByteSize_of_ascii hascii]
  simp [Nat.mul_comm]

theorem dots_ne_empty {n : Nat} (hn : 0 < n) : Sample.dots n ≠ "" := by
  intro hempty
  have hsize := utf8ByteSize_dots n
  rw [hempty, String.utf8ByteSize_empty] at hsize
  omega

theorem partsOf_dots (n : Nat) : partsOf (Sample.dots n) = List.replicate n "." ++ [""] := by
  have hsplit : split '/' (List.replicate n ['.', '/']).flatten =
      List.replicate n ['.'] ++ [[]] := by
    induction n with
    | zero => rfl
    | succ n ih => simp [List.replicate_succ, split, ih]
  rw [partsOf, Sample.dots, String.toList_ofList, hsplit, List.map_append, List.map_replicate]
  rfl

theorem walk_dots (files : Files) (n : Nat) :
    (List.replicate n "." ++ [""]).foldlM files.step [] = .ok [] := by
  have hdot : files.step [] "." = .ok [] := by
    rw [Files.step, files.node?_working]
    rfl
  induction n with
  | zero => exact Files.step_empty files.node?_working
  | succ n ih =>
    rw [List.replicate_succ, List.cons_append, List.foldlM_cons, hdot]
    exact ih

theorem folderAt_dots (files : Files) {n : Nat} (hn : 0 < n) (hsize : 2 * n ≤ longestPath) :
    files.FolderAt (Sample.dots n) [] := by
  have hwalkable : Files.walkable (Sample.dots n) = .ok () := by
    refine Files.walkable_eq_ok.mpr
      ⟨fun hnul => ?_, dots_ne_empty hn, by rwa [utf8ByteSize_dots]⟩
    rw [Sample.dots, String.toList_ofList] at hnul
    rcases of_mem_dots hnul with h | h <;> cases h
  have hstart : startOf (Sample.dots n) = [] := by
    obtain ⟨m, rfl⟩ := Nat.exists_eq_succ_of_ne_zero (Nat.ne_of_gt hn)
    simp [startOf, Sample.dots, List.replicate_succ]
  refine .inr ⟨?_, files.node?_working⟩
  rw [Files.locate, hwalkable, ok_bind, hstart, partsOf_dots, walk_dots]

/-- The text of the folder is short enough, those of its day files are not. -/
theorem not_fits_dots : ¬(Journal.mk (Sample.dots 2033)).Fits Sample.lastDay := by
  have hname : (fileName Sample.lastDay).toList.head? ≠ some '/' := by decide
  have hjoined := Files.utf8ByteSize_joinPath_ge (dots_ne_empty (by decide : 0 < 2033)) hname
  have hdate : Sample.lastDay.chars.length = 10 := by decide
  rw [utf8ByteSize_dots, utf8ByteSize_fileName, hdate] at hjoined
  exact Nat.not_le_of_lt (Nat.lt_of_lt_of_le (by decide) hjoined)

/-- The text of a folder may be short enough when those of its day files are too long: a writer
    is opened, and yet no trail can be read.  And an entry whose instant is not one of universal
    time is read back as another one. -/
theorem not_always_read :
    (Logged [] [] [{ journal := ⟨Sample.dots 2033⟩ }] .empty ∧
      (Journal.mk (Sample.dots 2033)).trail "sale" Sample.lastDay .empty =
        .error (.auditUnopened ((Journal.mk (Sample.dots 2033)).fileOf Sample.lastDay)
          .nameTooLong)) ∧
    ∃ ws files, ws.map Writer.journal = [⟨"audit"⟩] ∧ Logged ["audit"] [Sample.within] ws files ∧
      ∀ w ∈ ws, ∃ e, e ≠ Sample.within ∧
        w.journal.trail "sale" Sample.lastDay files = .ok [e] := by
  constructor
  · have hp : Files.empty.FolderAt (Sample.dots 2033) [] :=
      folderAt_dots _ (by decide) (by decide)
    have hopen : Writer.start (Sample.dots 2033) .empty =
        (.ok { journal := ⟨Sample.dots 2033⟩ }, .empty) := by
      rw [Writer.start, Journal.start, hp.createFolders_eq]
    exact ⟨.first hopen hp (node?_dayPath_empty []), trail_of_long hp not_fits_dots "sale"⟩
  · obtain ⟨ws, files, hjournals, hlogged⟩ :=
      Logged.onAudit.exists_accepted [(0, Sample.within)] (by decide +kernel)
    refine ⟨ws, files, hjournals, hlogged, fun w hw => ?_⟩
    have hjournal : w.journal = ⟨"audit"⟩ := by
      have hmem : w.journal ∈ ws.map Writer.journal := List.mem_map_of_mem hw
      rwa [hjournals, List.map_singleton, List.mem_singleton] at hmem
    have hstanding := hlogged.standing
    refine ⟨Sample.within.asRead, by decide +kernel, ?_⟩
    rw [trail_eq (hstanding.writers w hw).folder_at (by rw [hjournal]; decide +kernel)
      (hstanding.content _)]
    decide +kernel

end SignOff.Audit
