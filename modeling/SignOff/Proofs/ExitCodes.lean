/-
  SignOff/Proofs/ExitCodes.lean
  =============================
  **Exit codes.**  A command makes its calls until one fails, and its exit code goes by the kind
  of that failure: one code is for decisions that are turned down, another one for whatever else
  goes wrong.  A completion that comes again fails like a decision that is turned down, though
  nothing was to be decided and no refusal comes to the journal.  So it has the code of a refused
  decision (`exit_codes`).

  A run is described with all that it finds (`Program.Setting`), and with what the clock shows
  each time it is looked at.  The journal's files for these days may have any content, and the
  store may be in memory, or one that must not be changed.
-/
import SignOff.Proofs.LogRoundTrip
import SignOff.Proofs.Workflow.Refusing

namespace SignOff

open Audit Journal

/-! ### What is left behind -/

/-- **Entries come to the ends of their days' files**, and nothing else changes. -/
theorem Audit.Writer.take_spec {w : Writer} {files : Files} {p : Path} {days : Date → Prop}
    {content : Date → List UInt8} {es : List Entry} (hat : w.At p files)
    (hfits : ∀ day, days day → w.journal.Fits day)
    (hcontent : ∀ day, days day → files.HasContent (dayPath p day) (content day))
    (hdays : ∀ e ∈ es, days e.timestamp.date) :
    (∀ day, days day → (Trail.ofWriter.take (w, files) es).2.HasContent (dayPath p day)
      (content day ++ written (ofDay day es))) ∧
    ∀ q, (∀ day, days day → q ≠ dayPath p day) →
      (Trail.ofWriter.take (w, files) es).2.node? q = files.node? q := by
  induction es generalizing w files content with
  | nil => exact ⟨by simpa [written, ofDay, Trail.take] using hcontent, fun _ _ => rfl⟩
  | cons e rest ih =>
    obtain ⟨hday, hrest⟩ := List.forall_mem_cons.mp hdays
    obtain ⟨files', hlogged, hnodes⟩ := log_spec hat (hfits _ hday) (hcontent _ hday)
    have htake : Trail.ofWriter.take (w, files) (e :: rest) = Trail.ofWriter.take
        ({ w with current := some ⟨e.timestamp.date, dayPath p e.timestamp.date⟩ }, files')
        rest := by
      simp [Trail.take, Trail.ofWriter, hlogged]
    obtain ⟨hthere, helsewhere⟩ := ih (hat.logged (hfits _ hday) (hcontent _ hday) hnodes) hfits
      (fun day hd => hasContent_logged content (hcontent day hd) hnodes) hrest
    rw [htake]
    constructor
    · intro day hd
      have hthis := hthere day hd
      rwa [List.append_assoc, ← written_append, ← ofDay_append] at hthis
    · intro q hq
      rw [helsewhere q hq, hnodes, if_neg (hq _ hday)]

namespace OpenStore

variable {o : OpenStore} {files opened : Files} {p : Path}

theorem there_of_fresh {q : Path} (hfree : Files.Free q) (h : fresh files q = (.ok o, opened))
    (hp : o.place = some p) : opened.node? p = some (.store o.rows) := by
  rw [fresh] at h
  split at h
  · cases h
    cases hp
    rw [Files.node?_put hfree, if_pos rfl]
  · cases h

theorem there_of_inFile {q : Path} {mode : StoreMode} (h : inFile files q mode = (.ok o, opened))
    (hp : o.place = some p) : opened.node? p = some (.store o.rows) := by
  have hfree (hother : files.node? q ≠ some .folder) : Files.Free q :=
    not_not.mp fun hnot => hother (Files.node?_of_not_free hnot files)
  rw [inFile] at h
  split at h
  · next s hstore =>
    cases h
    cases hp
    exact hstore
  · cases h
  · next content hfile =>
    split_ifs at h
    · cases h
    · cases h
    · exact there_of_fresh (hfree (by simp [hfile])) h hp
  · next hnone =>
    split_ifs at h
    · exact there_of_fresh (hfree (by simp [hnone])) h hp
    · cases h

/-- **What is opened in a file is there.** -/
theorem there {name : String} (h : ofName files name = (.ok o, opened)) (hp : o.place = some p) :
    opened.node? p = some (.store o.rows) := by
  rw [ofName] at h
  split at h
  · cases h
  split at h
  · next l _ =>
    cases l with
    | memory shared =>
      cases shared with
      | false => cases h
      | true =>
        cases h
        cases hp
    | file text mode =>
      rw [atLocation] at h
      split at h
      · exact there_of_inFile h hp
      · cases h
  · cases h

/-- What is kept of a store is where it was opened, if anything is. -/
theorem node?_keep (hfree : ∀ p, o.place = some p → Files.Free p) (rows : Store) (q : Path) :
    (o.keep rows files).node? q =
      if o.place = some q ∧ o.writable = true then some (.store rows) else files.node? q := by
  rw [keep]
  cases hplace : o.place with
  | none => simp
  | some p =>
    cases o.writable with
    | false => simp
    | true => simp [Files.node?_put (hfree p hplace), eq_comm]

end OpenStore

/-! ### Runs -/

/-- The stores that commands lead to from the empty one. -/
inductive CommandLine.Reaches : Store → Prop
  | start : Reaches .empty
  | command {s : Store} {σ : Type} (reached : Reaches s) (command : Command) (config : Config)
      (ids : FreshIds) (trail : Trail σ) (readings : Nat → Instant) (w : σ) :
      Reaches ((command.procedure (.ofConfig config) ids).runAlong trail readings s w).store

theorem CommandLine.Reaches.keyed (h : Reaches s) : s.Keyed := by
  induction h with
  | start => exact Store.keyed_empty
  | command reached command config ids trail readings w ih =>
    exact Procedure.keyed_runAlong ih readings w

namespace Program

/-- A command line with all that it finds: an accepted configuration that names a store, which
    commands lead to, and a folder for the journal, in which the files can be written of all days
    that the clock shows. -/
structure Setting where
  readings : Nat → Instant
  ids : FreshIds
  words : List String
  files : Files
  line : CommandLine
  config : Config
  store : OpenStore
  opened : Files
  folder : String
  writer : Writer
  begun : Files
  path : Path
  content : Date → List UInt8
  keepable : ∀ k, (readings k).Keepable
  parsed : CommandLine.parse words = .ok line
  configured : configOf line files = .ok config
  stored : OpenStore.ofName files config.store = (.ok store, opened)
  reached : CommandLine.Reaches store.rows
  audited : config.auditFolder = some folder
  started : Writer.start folder opened = (.ok writer, begun)
  folder_at : begun.FolderAt folder path
  fits : ∀ k, (Journal.mk folder).Fits (readings k).date
  written_before : ∀ k, begun.HasContent (dayPath path (readings k).date)
    (content (readings k).date)

namespace Setting

def ending (g : Setting) : Ending := runAlong g.readings g.ids g.words g.files

def calls (g : Setting) : List Call :=
  (g.line.command.calls g.ids).made (.ofConfig g.config) g.store.writable g.readings g.store.rows

/-- A day that the clock shows. -/
def Shows (g : Setting) (day : Date) : Prop := ∃ k, (g.readings k).date = day

def entries (g : Setting) : List Entry := g.calls.flatMap fun c => c.ending.trail

/-- The command is a decision that is turned down. -/
def Refused (g : Setting) : Prop :=
  (∃ r, g.line.command.ruling? = some r) ∧ ∃ c ∈ g.calls, c.TurnedDown

/-- The command is a completion, which could be written, of what has been completed before. -/
def CompletesAgain (g : Setting) : Prop :=
  ∃ id, g.line.command = .complete id ∧ g.store.writable = true ∧
    g.store.rows.Completed id (g.readings 0)

/-- How the exit code and the journal tell what has come of the command. -/
structure Classified (g : Setting) : Prop where
  ok : g.ending.code = exitOk ↔ ∀ c ∈ g.calls, ∃ y, c.ending.answer = .ok y
  refused : g.ending.code = exitRefused ↔ g.Refused ∨ g.CompletesAgain
  aborted : g.ending.code = exitAborted ↔
    ∃ c ∈ g.calls, ∃ why, c.ending.answer = .error (.overflow why)
  failed : g.ending.code = exitFailure ↔
    (∃ c ∈ g.calls, ∃ why, c.ending.answer = .error (.failed why)) ∧
      ¬g.Refused ∧ ¬g.CompletesAgain
  dated : ∀ e ∈ g.entries, ∃ k, e.timestamp = g.readings k
  journal : ∀ day, g.Shows day → g.ending.files.HasContent (dayPath g.path day)
    (g.content day ++ written (ofDay day g.entries))
  /-- a decision that is turned down is noted, and that is all -/
  noted : g.Refused → ∃ e, g.entries = [e] ∧ e.event = .decisionRefused
  unnoted : ¬g.Refused → ∀ e ∈ g.entries, e.event ≠ .decisionRefused
  /-- a decision that is turned down leaves the store as it was -/
  kept : g.Refused → ∀ p, g.store.place = some p →
    g.ending.files.node? p = some (.store g.store.rows)
  elsewhere : ∀ q, (∀ day, g.Shows day → q ≠ dayPath g.path day) → g.store.place ≠ some q →
    g.ending.files.node? q = g.begun.node? q

end Setting

theorem Ending.files_of (files : Files) (a : Except Halt Json) :
    (Ending.of files a).files = files := by
  cases a <;> rfl

theorem Ending.code_of (files : Files) (a : Except Halt Json) :
    ((Ending.of files a).code = exitOk ↔ ∀ why, a ≠ .error why) ∧
    ((Ending.of files a).code = exitRefused ↔
      ∃ why, a = .error (.failed why) ∧ why.kind.isRefusal = true) ∧
    ((Ending.of files a).code = exitAborted ↔ ∃ why, a = .error (.overflow why)) ∧
    ((Ending.of files a).code = exitFailure ↔
      ∃ why, a = .error (.failed why) ∧ why.kind.isRefusal = false) := by
  rcases a with (why | why) | j
  · cases hkind : why.kind.isRefusal <;>
      simp [Ending.of, Halt.exitCode, ErrorKind.exitCode, hkind, exitOk, exitRefused, exitAborted,
        exitFailure]
  · have : Nonempty Overflow := ⟨why⟩
    simp [Ending.of, Halt.exitCode, exitOk, exitRefused, exitAborted, exitFailure]
  · simp [Ending.of, exitOk, exitRefused, exitAborted, exitFailure]

namespace Setting

variable {g : Setting}

/-- **A run is its calls**: they decide its answer, and what they have noted goes to a writer of
    the journal. -/
theorem ending_eq (g : Setting) : ∃ (a : Except Halt Json) (rows : Store),
    (∀ why, a = .error why ↔ ∃ c ∈ g.calls, c.ending.answer = .error why) ∧
    ((∀ c ∈ g.calls, c.ending.store = c.before) → rows = g.store.rows) ∧
    g.ending = .of (g.store.keep rows (Trail.ofWriter.take (g.writer, g.begun) g.entries).2) a := by
  obtain ⟨-, hanswer, hsame, htrail⟩ := Calls.runAlong_made (g.line.command.calls g.ids)
    g.reached.keyed g.keepable .ofWriter (g.writer, g.begun) rfl
  refine ⟨_, _, hanswer, hsame, ?_⟩
  rw [entries, calls, ← htrail]
  simp only [ending, runAlong, g.parsed, g.configured, carryOut, g.stored, g.audited, g.started,
    CommandLine.Command.procedure_eq_calls, Procedure.asAllowed]

theorem made (g : Setting) {c : Call} (hc : c ∈ g.calls) :
    c.Made (.ofConfig g.config) g.store.writable :=
  (Calls.runAlong_made (g.line.command.calls g.ids) g.reached.keyed g.keepable .silent () rfl).1
    c hc

theorem serves {c : Call} (hc : c ∈ g.calls) : g.line.command.Serves c.op :=
  (CommandLine.Command.calls_serve g.line.command).made hc

theorem calls_of_last {op : Operation} (h : g.line.command.calls g.ids = .last op) :
    ∃ c, g.calls = [c] ∧ c.op = op ∧ c.before = g.store.rows ∧ c.readings = g.readings :=
  ⟨_, by rw [calls, h]; exact Calls.made_last .., rfl, rfl, rfl⟩

/-- **A call is turned down if and only if** the command is a decision that is, or completes
    again. -/
theorem turnedDown_iff : (∃ c ∈ g.calls, c.TurnedDown) ↔ g.Refused ∨ g.CompletesAgain := by
  constructor
  · rintro ⟨c, hc, hdown⟩
    obtain ⟨hruling, hcompletion⟩ := serves hc
    rcases (g.made hc).turnedDown hdown with ⟨r, hr⟩ | ⟨id, hop, hwritable, hdone⟩
    · exact .inl ⟨⟨r, hruling.symm.trans hr⟩, c, hc, hdown⟩
    · have hcommand := hcompletion id hop
      obtain ⟨c', hcalls, -, hbefore, hreadings⟩ :=
        g.calls_of_last (congrArg (·.calls g.ids) hcommand)
      rw [hcalls, List.mem_singleton] at hc
      rw [hc, hbefore, hreadings] at hdone
      exact .inr ⟨id, hcommand, hwritable, hdone⟩
  · rintro (⟨-, hdown⟩ | ⟨id, hcommand, hwritable, hdone⟩)
    · exact hdown
    · obtain ⟨c, hcalls, hop, hbefore, hreadings⟩ :=
        g.calls_of_last (congrArg (·.calls g.ids) hcommand)
      have hc : c ∈ g.calls := by rw [hcalls]; exact List.mem_cons_self
      have hmade := g.made hc
      rw [hwritable] at hmade
      rw [← hbefore, ← hreadings] at hdone
      exact ⟨c, hc, hmade.turnedDown_again hop hdone⟩

/-- A decision that is turned down is the only call. -/
theorem Refused.calls_eq (h : g.Refused) :
    ∃ c, g.calls = [c] ∧ (∃ r, c.op.ruling? = some r) ∧ c.TurnedDown := by
  obtain ⟨⟨r, hr⟩, c, hc, hdown⟩ := h
  obtain ⟨op, hop, hlast⟩ := CommandLine.Command.calls_of_ruling hr g.ids
  obtain ⟨c', hcalls, rfl, -, -⟩ := g.calls_of_last hlast
  rw [hcalls, List.mem_singleton] at hc
  subst hc
  exact ⟨c, hcalls, ⟨r, hop⟩, hdown⟩

/-- The store is still there when the journal has been started. -/
theorem there (hp : g.store.place = some p) : g.begun.node? p = some (.store g.store.rows) := by
  have hkeeps := g.opened.createFolders_keeps g.folder
  rw [(start_eq g.started).1] at hkeeps
  exact hkeeps _ _ (OpenStore.there g.stored hp)

theorem dated {e : Entry} (he : e ∈ g.entries) : ∃ k, e.timestamp = g.readings k := by
  obtain ⟨c, hc, he⟩ := List.mem_flatMap.mp he
  obtain ⟨k, hk⟩ := ((g.made hc).noted he).1
  obtain ⟨n, hn⟩ := Calls.readings_made _ hc
  exact ⟨n + k, by rw [hk, hn]⟩

theorem refused_of_entry {e : Entry} (he : e ∈ g.entries) (hevent : e.event = .decisionRefused) :
    g.Refused := by
  obtain ⟨c, hc, he⟩ := List.mem_flatMap.mp he
  obtain ⟨⟨r, hop⟩, hdown⟩ := ((g.made hc).noted he).2 hevent
  exact ⟨⟨r, (serves hc).1.symm.trans hop⟩, c, hc, hdown⟩

theorem Refused.noted (h : g.Refused) : ∃ e, g.entries = [e] ∧ e.event = .decisionRefused := by
  obtain ⟨c, hcalls, ⟨r, hop⟩, hdown⟩ := h.calls_eq
  have hc : c ∈ g.calls := by rw [hcalls]; exact List.mem_cons_self
  obtain ⟨-, e, he, hevent⟩ := (g.made hc).refused hop hdown
  exact ⟨e, by rw [entries, hcalls, List.flatMap_singleton, he], hevent⟩

theorem Refused.unchanged (h : g.Refused) : ∀ c ∈ g.calls, c.ending.store = c.before := by
  obtain ⟨c, hcalls, ⟨r, hop⟩, hdown⟩ := h.calls_eq
  intro c' hc
  have hmade := g.made hc
  rw [hcalls, List.mem_singleton] at hc
  subst hc
  exact (hmade.refused hop hdown).1

/-- **What is left behind**: the days' files have the entries at their ends, the store has the rows
    where it may be written, and nothing else has changed. -/
theorem left (g : Setting) (rows : Store) {left : Files}
    (hleft : g.store.keep rows (Trail.ofWriter.take (g.writer, g.begun) g.entries).2 = left) :
    (∀ day, g.Shows day → left.HasContent (dayPath g.path day)
      (g.content day ++ written (ofDay day g.entries))) ∧
    (rows = g.store.rows → ∀ p, g.store.place = some p → left.node? p = some (.store rows)) ∧
    ∀ q, (∀ day, g.Shows day → q ≠ dayPath g.path day) → g.store.place ≠ some q →
      left.node? q = g.begun.node? q := by
  have hat : g.writer.At g.path g.begun := by
    rw [(start_eq g.started).2]
    exact Writer.at_of_closed g.folder_at
  have hfits : ∀ day, g.Shows day → g.writer.journal.Fits day := by
    rintro _ ⟨k, rfl⟩
    rw [(start_eq g.started).2]
    exact g.fits k
  have hcontent : ∀ day, g.Shows day → g.begun.HasContent (dayPath g.path day) (g.content day) := by
    rintro _ ⟨k, rfl⟩
    exact g.written_before k
  have hshown : ∀ e ∈ g.entries, g.Shows e.timestamp.date := by
    intro e he
    obtain ⟨k, hk⟩ := dated he
    exact ⟨k, by rw [hk]⟩
  obtain ⟨hthere, helsewhere⟩ := Writer.take_spec hat hfits hcontent hshown
  have hfree (p : Path) (hp : g.store.place = some p) : Files.Free p := by
    by_contra hnot
    have hstore := g.there hp
    rw [Files.node?_of_not_free hnot] at hstore
    cases hstore
  -- the store is no file of the journal
  have hother {p : Path} (hp : g.store.place = some p) (day : Date) (hday : g.Shows day) :
      p ≠ dayPath g.path day := by
    rintro rfl
    rcases hcontent day hday with hfile | ⟨hnone, -⟩
    · cases hfile.symm.trans (g.there hp)
    · cases hnone.symm.trans (g.there hp)
  subst hleft
  refine ⟨?_, ?_, ?_⟩
  · intro day hday
    rw [Files.HasContent, OpenStore.node?_keep hfree, if_neg fun h => hother h.1 day hday rfl]
    exact hthere day hday
  · rintro rfl p hp
    rw [OpenStore.node?_keep hfree]
    split
    · rfl
    · rw [helsewhere p (hother hp)]
      exact g.there hp
  · intro q hq hp
    rw [OpenStore.node?_keep hfree, if_neg fun h => hp h.1]
    exact helsewhere q hq

/-- **The exit code goes by the calls.**  The answer is an error if and only if a call has ended
    with it. -/
theorem code_iff {files : Files} {a : Except Halt Json}
    (hanswer : ∀ why, a = .error why ↔ ∃ c ∈ g.calls, c.ending.answer = .error why) :
    ((Ending.of files a).code = exitOk ↔ ∀ c ∈ g.calls, ∃ y, c.ending.answer = .ok y) ∧
    ((Ending.of files a).code = exitRefused ↔ ∃ c ∈ g.calls, c.TurnedDown) ∧
    ((Ending.of files a).code = exitAborted ↔
      ∃ c ∈ g.calls, ∃ why, c.ending.answer = .error (.overflow why)) ∧
    ((Ending.of files a).code = exitFailure ↔
      (∃ c ∈ g.calls, ∃ why, c.ending.answer = .error (.failed why)) ∧
        ¬∃ c ∈ g.calls, c.TurnedDown) := by
  obtain ⟨hok, hrefused, haborted, hfailed⟩ := Ending.code_of files a
  have hdown : (∃ why, a = .error (.failed why) ∧ why.kind.isRefusal = true) ↔
      ∃ c ∈ g.calls, c.TurnedDown := by
    simp only [Call.turnedDown_iff, hanswer]
    grind
  refine ⟨hok.trans ⟨?_, ?_⟩, hrefused.trans hdown, ?_, hfailed.trans ⟨?_, ?_⟩⟩
  · intro hnone c hc
    cases hc' : c.ending.answer with
    | ok y => exact ⟨y, rfl⟩
    | error why => exact absurd ((hanswer why).mpr ⟨c, hc, hc'⟩) (hnone why)
  · intro hall why hwhy
    obtain ⟨c, hc, hc'⟩ := (hanswer why).mp hwhy
    obtain ⟨y, hy⟩ := hall c hc
    cases hy.symm.trans hc'
  · rw [haborted]
    simp only [hanswer]
    grind
  · rintro ⟨why, hwhy, hkind⟩
    obtain ⟨c, hc, hc'⟩ := (hanswer _).mp hwhy
    refine ⟨⟨c, hc, why, hc'⟩, ?_⟩
    rw [← hdown]
    rintro ⟨why', hwhy', hkind'⟩
    rw [hwhy] at hwhy'
    cases hwhy'
    rw [hkind] at hkind'
    cases hkind'
  · rintro ⟨⟨c, hc, why, hc'⟩, hnone⟩
    have hwhy := (hanswer _).mpr ⟨c, hc, hc'⟩
    refine ⟨why, hwhy, ?_⟩
    rw [← hdown] at hnone
    rw [← Bool.not_eq_true]
    exact fun hkind => hnone ⟨why, hwhy, hkind⟩

end Setting

/-- **Exit codes classify every command**, but for a completion that comes again.  It has the code
    of a refused decision, though nothing was to be decided and no refusal is in the journal. -/
theorem exit_codes (g : Setting) : g.Classified := by
  obtain ⟨a, rows, hanswer, hsame, hending⟩ := g.ending_eq
  obtain ⟨hcontent, hkept, helsewhere⟩ := g.left rows rfl
  generalize g.store.keep rows (Trail.ofWriter.take (g.writer, g.begun) g.entries).2 = files
    at hending hcontent hkept helsewhere
  obtain ⟨hok, hrefused, haborted, hfailed⟩ := Setting.code_iff hanswer
  rw [← hending] at hok hrefused haborted hfailed
  rw [← Ending.files_of files a, ← hending] at hcontent hkept helsewhere
  rw [Setting.turnedDown_iff] at hrefused hfailed
  constructor
  case ok => exact hok
  case refused => exact hrefused
  case aborted => exact haborted
  case failed => rwa [not_or] at hfailed
  case dated => exact fun e => Setting.dated
  case journal => exact hcontent
  case noted => exact Setting.Refused.noted
  case unnoted => exact fun hnot e he hevent => hnot (Setting.refused_of_entry he hevent)
  case kept =>
    intro h p hp
    have hrows := hsame h.unchanged
    rw [← hrows]
    exact hkept hrows p hp
  case elsewhere => exact helsewhere

end Program

namespace Sample

open CommandLine

/-- A license moves within a team, which no one has to sign off. -/
def ownMove : Proposal := ⟨"license", buyer, buyer, false, false, false, none⟩

def after (command : Command) (transfer : String) (s : Store) : Store :=
  ((command.procedure (.ofConfig .standard) ⟨transfer, stepIds⟩).runAlong .silent
    (fun _ => firstDay) s ()).store

/-- The store in which a move is completed, and a gift has been planned. -/
def moved : Store :=
  after (.initiate gift true) "gift"
    (after (.complete "move") "" (after (.initiate ownMove false) "move" .empty))

def configured : Files :=
  ⟨[(["signoff.toml"], .file (Text.bytesOf "audit_log_dir = \"audit\"")),
    (["licensegate.db"], .store moved)]⟩

/-- The move is completed once more. -/
def secondCompletion : Program.Setting where
  readings _ := secondDay
  ids := ⟨"next", stepIds⟩
  words := ["--config", "signoff.toml", "complete", "--transfer", "move"]
  files := configured
  line := ⟨some "signoff.toml", none, .text, .complete "move"⟩
  config := { Config.standard with auditFolder := some "audit" }
  store := ⟨moved, some ["licensegate.db"], true⟩
  opened := configured
  folder := "audit"
  writer := { journal := ⟨"audit"⟩ }
  begun := ⟨configured.nodes ++ [(["audit"], .folder)]⟩
  path := ["audit"]
  content _ := []
  keepable _ := by decide
  parsed := by decide +kernel
  configured := by decide +kernel
  stored := by decide +kernel
  reached := .command (.command (.command .start _ _ _ _ _ _) _ _ _ _ _ _) _ _ _ _ _ _
  audited := rfl
  started := by decide +kernel
  folder_at := .inr (by decide +kernel)
  fits _ := by decide +kernel
  written_before _ := .inr (by decide +kernel)

/-- The giver signs for the receiver. -/
def wrongApproval : Program.Setting :=
  { secondCompletion with
    words := ["--config", "signoff.toml", "approve", "--step", "first", "--actor-kind", "user",
      "--actor-id", "seller"]
    line := ⟨some "signoff.toml", none, .text, .approve "first" none ⟨seller, [], false, []⟩⟩
    parsed := by decide +kernel
    configured := by decide +kernel }

end Sample

/-- A decision that is turned down has the code and is in the journal, a completion that comes again
    has the code and is not. -/
theorem refusals_classified :
    (Sample.wrongApproval.Refused ∧ Sample.wrongApproval.ending.code = exitRefused ∧
      ∃ e, Sample.wrongApproval.entries = [e] ∧ e.event = .decisionRefused) ∧
    Sample.secondCompletion.CompletesAgain ∧ Sample.secondCompletion.ending.code = exitRefused ∧
      ∀ e ∈ Sample.secondCompletion.entries, e.event ≠ .decisionRefused := by
  have hwrong := Program.exit_codes Sample.wrongApproval
  have hagain := Program.exit_codes Sample.secondCompletion
  have hwrongcode : Sample.wrongApproval.ending.code = exitRefused := by decide +kernel
  have hagaincode : Sample.secondCompletion.ending.code = exitRefused := by decide +kernel
  have hnot : ¬Sample.secondCompletion.Refused := by
    rintro ⟨⟨r, hr⟩, -⟩
    cases hr
  have hrefused : Sample.wrongApproval.Refused := by
    refine (hwrong.refused.mp hwrongcode).resolve_right ?_
    rintro ⟨id, hid, -⟩
    cases hid
  exact ⟨⟨hrefused, hwrongcode, hwrong.noted hrefused⟩,
    (hagain.refused.mp hagaincode).resolve_left hnot, hagaincode, hagain.unnoted hnot⟩

/-- **The code of a refused decision is not kept for decisions.** -/
theorem exitRefused_not_only_refused :
    ¬∀ g : Program.Setting, g.ending.code = exitRefused ↔ g.Refused := by
  intro h
  have hcode : Sample.secondCompletion.ending.code = exitRefused := by decide +kernel
  obtain ⟨⟨r, hr⟩, -⟩ := (h Sample.secondCompletion).mp hcode
  cases hr

end SignOff
