/-
  SignOff/Proofs/Files/Walking.lean
  =================================
  **The way to a file.**  A walk depends only on which paths lead to folders, so it is the
  same in every tree with at least these folders (`Files.walk_mono`).  Where a text leads to a
  folder, the text with a name behind it leads to the file of that name in the folder, as long
  as it is not too long (`Files.FolderAt.locate_joinPath`).

  A folder that is made is there (`Files.folderAt_of_createFolders`), and to make it again
  changes nothing (`Files.FolderAt.createFolders_eq`).
-/
import SignOff.Files
import SignOff.Proofs.Store.RoundTrip
import Mathlib.Data.List.Induction

namespace SignOff

open Text

/-! ### Parts -/

theorem Text.split_of_not_mem {mark : Char} {cs : List Char} (h : mark ∉ cs) :
    split mark cs = [cs] := by
  induction cs with
  | nil => rfl
  | cons c rest ih =>
    have hc : c ≠ mark := fun heq => h (heq ▸ List.mem_cons_self)
    rw [split, if_neg hc, ih fun hrest => h (List.mem_cons_of_mem c hrest)]

theorem Text.split_append (mark : Char) (cs ds : List Char) :
    split mark (cs ++ mark :: ds) = split mark cs ++ split mark ds := by
  induction cs with
  | nil => simp [split]
  | cons c rest ih =>
    by_cases hc : c = mark
    · simp [split, hc, ih]
    · obtain ⟨part, parts, hparts⟩ := List.exists_cons_of_ne_nil (split_ne_nil mark rest)
      simp [split, hc, ih, hparts]

namespace Files

/-! ### What is put -/

/-- Something can be put at the path: it is not the working folder, nor above it, nor the
    root. -/
def Free (p : Path) : Prop := p.isUpward = false ∧ p ≠ [root]

theorem free_of_node?_none {files : Files} {p : Path} (h : files.node? p = none) : Free p := by
  unfold node? at h
  split at h
  · cases h
  · next hp =>
    rw [not_or, Bool.not_eq_true] at hp
    exact hp

theorem node?_of_free {p : Path} (h : Free p) (files : Files) :
    files.node? p = (files.nodes.find? fun n => n.1 = p).map fun n => n.2 := by
  rw [node?, if_neg]
  rw [h.1]
  simp [h.2]

theorem node?_of_not_free {p : Path} (h : ¬Free p) (files : Files) :
    files.node? p = some .folder := by
  rw [node?, if_pos]
  by_contra hp
  rw [not_or, Bool.not_eq_true] at hp
  exact h hp

/-- The working folder is always there. -/
theorem node?_working (files : Files) : files.node? [] = some .folder := if_pos (.inl rfl)

theorem find?_replaced (nodes : List (Path × Node)) (p : Path) (n : Node) (q : Path) :
    (nodes.map fun m => if m.1 = p then (p, n) else m).find? (fun m => m.1 = q) =
      (nodes.find? fun m => m.1 = q).map fun m => if m.1 = p then (p, n) else m := by
  rw [List.find?_map]
  congr 2
  funext m
  by_cases hm : m.1 = p <;> simp [hm]

/-- **What is put at a path is there, and nothing else changes.** -/
theorem node?_put {p : Path} (h : Free p) (files : Files) (n : Node) (q : Path) :
    (files.put p n).node? q = if q = p then some n else files.node? q := by
  by_cases hq : Free q
  case neg =>
    have hne : q ≠ p := fun heq => hq (heq ▸ h)
    rw [node?_of_not_free hq, node?_of_not_free hq, if_neg hne]
  rw [node?_of_free hq, node?_of_free hq, put]
  split
  -- what was at the path is replaced where it stood
  · next hthere =>
    rw [find?_replaced]
    by_cases hqp : q = p
    · subst hqp
      obtain ⟨m, hm, hmq⟩ := List.any_eq_true.mp hthere
      have hsome : (files.nodes.find? fun m => m.1 = q).isSome = true :=
        List.find?_isSome.mpr ⟨m, hm, hmq⟩
      obtain ⟨m', hfound⟩ := Option.isSome_iff_exists.mp hsome
      have hm' : m'.1 = q := by simpa using List.find?_some hfound
      simp [hfound, hm']
    · rw [if_neg hqp, Option.map_map]
      cases hfound : files.nodes.find? (fun m => m.1 = q) with
      | none => rfl
      | some m =>
        have hm : m.1 = q := by simpa using List.find?_some hfound
        simp [hm, hqp]
  -- nothing was there, and the node comes behind all others
  · next hnew =>
    have hnone : files.nodes.find? (fun m => m.1 = p) = none := by
      rw [List.find?_eq_none]
      exact fun m hm hmp => hnew (List.any_eq_true.mpr ⟨m, hm, hmp⟩)
    by_cases hqp : q = p
    · subst hqp
      simp [List.find?_append, hnone]
    · have hpq : p ≠ q := fun heq => hqp heq.symm
      simp [List.find?_append, hqp, hpq]

/-! ### Walks -/

/-- Every folder of one tree is one of the other. -/
def KeepsFolders (files files' : Files) : Prop :=
  ∀ p, files.node? p = some .folder → files'.node? p = some .folder

theorem step_mono {files files' : Files} (h : files.KeepsFolders files') {p q : Path}
    {part : String} (hstep : files.step p part = .ok q) : files'.step p part = .ok q := by
  unfold step at hstep
  split at hstep
  · next hfolder => rw [step, h p hfolder, ← hstep]
  · cases hstep
  · cases hstep

theorem walk_mono {files files' : Files} (h : files.KeepsFolders files') {parts : List String}
    {p q : Path} (hwalk : parts.foldlM files.step p = .ok q) :
    parts.foldlM files'.step p = .ok q := by
  induction parts generalizing p with
  | nil => exact hwalk
  | cons part parts ih =>
    rw [List.foldlM_cons] at hwalk ⊢
    obtain ⟨r, hstep, hrest⟩ := exists_of_bind_eq_ok hwalk
    rw [step_mono h hstep]
    exact ih hrest

theorem further_empty (p : Path) : p.further "" = p := if_pos (.inl rfl)

/-- An empty part asks for a folder and leads no further. -/
theorem step_empty {files : Files} {p : Path} (h : files.node? p = some .folder) :
    files.step p "" = .ok p := by
  rw [step, h]
  exact congrArg Except.ok (further_empty p)

theorem eq_of_step_empty {files : Files} {p q : Path} (h : files.step p "" = .ok q) :
    files.node? p = some .folder ∧ q = p := by
  unfold step at h
  split at h
  · next hfolder => exact ⟨hfolder, by rw [← Except.ok.inj h]; exact further_empty p⟩
  · cases h
  · cases h

theorem walk_empty {files : Files} {p : Path} (h : files.node? p = some .folder) (n : Nat) :
    (List.replicate n "").foldlM files.step p = .ok p := by
  induction n with
  | zero => rfl
  | succ n ih =>
    rw [List.replicate_succ, List.foldlM_cons, step_empty h]
    exact ih

theorem eq_of_walk_empty {files : Files} {n : Nat} {p q : Path}
    (h : (List.replicate n "").foldlM files.step p = .ok q) : q = p := by
  induction n generalizing p with
  | zero => exact (Except.ok.inj h).symm
  | succ n ih =>
    rw [List.replicate_succ, List.foldlM_cons] at h
    obtain ⟨r, hstep, hrest⟩ := exists_of_bind_eq_ok h
    rw [ih hrest, (eq_of_step_empty hstep).2]

/-- What is left out at the end are empty parts. -/
theorem exists_withoutSlashes (parts : List String) :
    ∃ n, parts = withoutSlashes parts ++ List.replicate n "" := by
  induction parts using List.reverseRecOn with
  | nil => exact ⟨0, rfl⟩
  | append_singleton parts last ih =>
    by_cases hlast : last = ""
    · obtain ⟨n, hn⟩ := ih
      have hsame : withoutSlashes (parts ++ [last]) = withoutSlashes parts := by
        simp [withoutSlashes, hlast]
      refine ⟨n + 1, ?_⟩
      rw [hsame, List.replicate_succ', ← List.append_assoc, ← hn, hlast]
    · have hall : withoutSlashes (parts ++ [last]) = parts ++ [last] := by
        simp [withoutSlashes, hlast]
      exact ⟨0, by rw [hall, List.replicate_zero, List.append_nil]⟩

/-- A walk that leads to a folder leads there without the slashes at its end. -/
theorem walk_withoutSlashes {files : Files} {parts : List String} {p q : Path}
    (h : parts.foldlM files.step p = .ok q) : (withoutSlashes parts).foldlM files.step p = .ok q := by
  obtain ⟨n, hparts⟩ := exists_withoutSlashes parts
  rw [hparts, List.foldlM_append] at h
  obtain ⟨r, hwalk, hrest⟩ := exists_of_bind_eq_ok h
  rwa [eq_of_walk_empty hrest]

theorem walkable_eq_ok {text : String} : walkable text = .ok () ↔
    '\x00' ∉ text.toList ∧ text ≠ "" ∧ text.utf8ByteSize ≤ longestPath := by
  unfold walkable
  split_ifs with hnul hempty hlong
  · simpa using fun h => absurd (List.contains_iff_mem.mp hnul) h
  · simp [hempty]
  · simp only [false_iff, not_and]
    omega
  · simp_all

/-! ### Folders and the files in them -/

/-- The text leads to the folder at the path; the empty text stands for the working folder. -/
def FolderAt (files : Files) (text : String) (p : Path) : Prop :=
  text = "" ∧ p = [] ∨ files.locate text = .ok p ∧ files.node? p = some .folder

/-- The name of a file: one part of a path that leads one folder down. -/
structure FileName (name : String) : Prop where
  no_slash : '/' ∉ name.toList
  no_nul : '\x00' ∉ name.toList
  size_le : name.utf8ByteSize ≤ longestName
  not_dot : name ∉ ["", ".", ".."]

theorem FileName.free {name : String} (h : FileName name) (p : Path) : Free (p ++ [name]) := by
  constructor
  · have hup : name ≠ ".." := fun heq => h.not_dot (by simp [heq])
    simp [Path.isUpward, hup]
  · intro heq
    have hroot : name = root := by
      have hlast := congrArg List.getLast? heq
      simpa using hlast
    exact h.no_slash (hroot ▸ by decide)

theorem FileName.step {name : String} (h : FileName name) {files : Files} {p : Path}
    (hp : files.node? p = some .folder) : files.step p name = .ok (p ++ [name]) := by
  have hdots : name ≠ "" ∧ name ≠ "." ∧ name ≠ ".." := by simpa using h.not_dot
  have hfurther : p.further name = p ++ [name] := by
    simp [Path.further, hdots]
  rw [Files.step, hp]
  simp [h.size_le, hfurther]

theorem partsOf_append (front name : String) (h : '/' ∉ name.toList) :
    partsOf (front ++ "/" ++ name) = partsOf front ++ [name] := by
  have hchars : (front ++ "/" ++ name).toList = front.toList ++ '/' :: name.toList := by simp
  rw [partsOf, hchars, split_append, split_of_not_mem h, List.map_append, partsOf]
  simp

/-- A slash is put between the two unless there is one at the end of the first. -/
theorem joinPath_cases {text name : String} (htext : text ≠ "")
    (hname : name.toList.head? ≠ some '/') :
    (∃ front, text = front ++ "/" ∧ joinPath text name = text ++ name) ∨
      joinPath text name = text ++ "/" ++ name := by
  rw [joinPath, if_neg (not_or.mpr ⟨htext, hname⟩)]
  split
  · next hslash =>
    obtain ⟨front, hfront⟩ := List.getLast?_eq_some_iff.mp hslash
    refine .inl ⟨String.ofList front, ?_, rfl⟩
    rw [← String.toList_inj, hfront]
    simp
  · exact .inr rfl

theorem utf8ByteSize_joinPath_ge {text name : String} (htext : text ≠ "")
    (hname : name.toList.head? ≠ some '/') :
    text.utf8ByteSize + name.utf8ByteSize ≤ (joinPath text name).utf8ByteSize := by
  rcases joinPath_cases htext hname with ⟨_, _, hjoin⟩ | hjoin
  · exact Nat.le_of_eq (by rw [hjoin, String.utf8ByteSize_append])
  · rw [hjoin, String.utf8ByteSize_append, String.utf8ByteSize_append]
    omega

theorem startOf_append {text : String} (htext : text ≠ "") (more : String) :
    startOf (text ++ more) = startOf text := by
  have hne : text.toList ≠ [] := fun h => htext (String.toList_inj.mp h)
  obtain ⟨c, cs, hcs⟩ := List.exists_cons_of_ne_nil hne
  simp [startOf, hcs]

/-- The walk along the text with the name behind it is the walk along the text and one step
    more. -/
theorem walk_joinPath {files : Files} {text name : String} {p : Path} (htext : text ≠ "")
    (hname : '/' ∉ name.toList)
    (hwalk : (partsOf text).foldlM files.step (startOf text) = .ok p) :
    (partsOf (joinPath text name)).foldlM files.step (startOf (joinPath text name)) =
      files.step p name := by
  have hhead : name.toList.head? ≠ some '/' := fun h => hname (List.mem_of_head? h)
  -- the parts of the text, with an empty one at the end if it ends with a slash
  have hparts : ∃ front n, partsOf (joinPath text name) = front ++ [name] ∧
      partsOf text = front ++ List.replicate n "" := by
    rcases joinPath_cases htext hhead with ⟨front, hfront, hjoin⟩ | hjoin
    · refine ⟨partsOf front, 1, ?_, ?_⟩
      · rw [hjoin, hfront, partsOf_append _ _ hname]
      · have hsame : text = front ++ "/" ++ "" := by simp [hfront]
        rw [hsame, partsOf_append _ _ (by simp)]
        rfl
    · exact ⟨partsOf text, 0, by rw [hjoin, partsOf_append _ _ hname], by simp⟩
  have hstart : startOf (joinPath text name) = startOf text := by
    rcases joinPath_cases htext hhead with ⟨_, _, hjoin⟩ | hjoin
    · rw [hjoin, startOf_append htext]
    · rw [hjoin, String.append_assoc, startOf_append htext]
  obtain ⟨front, n, hjoined, hfolder⟩ := hparts
  rw [hfolder, List.foldlM_append] at hwalk
  obtain ⟨r, hfront, hrest⟩ := exists_of_bind_eq_ok hwalk
  rw [hjoined, hstart, List.foldlM_append, hfront, ok_bind, eq_of_walk_empty hrest,
    List.foldlM_cons]
  cases files.step r name <;> rfl

theorem mem_joinPath {text name : String} {c : Char} (h : c ∈ (joinPath text name).toList) :
    c ∈ text.toList ∨ c = '/' ∨ c ∈ name.toList := by
  unfold joinPath at h
  split_ifs at h
  · exact .inr (.inr h)
  · rw [String.toList_append] at h
    exact (List.mem_append.mp h).imp_right .inr
  · rw [String.toList_append, String.toList_append, List.mem_append, List.mem_append] at h
    rcases h with (h | h) | h
    · exact .inl h
    · exact .inr (.inl (List.mem_singleton.mp h))
    · exact .inr (.inr h)

theorem joinPath_ne_empty {text name : String} (h : name ≠ "") : joinPath text name ≠ "" := by
  unfold joinPath
  split_ifs
  · exact h
  · simp [h]
  · simp

/-- A text that can be walked stays so with a name behind it, unless it gets too long. -/
theorem walkable_joinPath {text name : String} (htext : '\x00' ∉ text.toList)
    (hname : FileName name) : walkable (joinPath text name) =
      if longestPath < (joinPath text name).utf8ByteSize then .error .nameTooLong else .ok () := by
  have hnul : (joinPath text name).toList.contains '\x00' = false := by
    refine Bool.eq_false_iff.mpr fun hmem => ?_
    rcases mem_joinPath (List.contains_iff_mem.mp hmem) with h | h | h
    · exact htext h
    · cases h
    · exact hname.no_nul h
  have hne : joinPath text name ≠ "" := joinPath_ne_empty (hname.not_dot ∘ by simp +contextual)
  rw [walkable, hnul, if_neg (by decide), if_neg hne]

/-- **The way to a file in a folder.**  The text of the folder with the name behind it leads
    to the file of that name, unless it is too long. -/
theorem FolderAt.locate_joinPath {files : Files} {text : String} {p : Path}
    (h : files.FolderAt text p) {name : String} (hname : FileName name) :
    files.locate (joinPath text name) =
      if longestPath < (joinPath text name).utf8ByteSize then .error .nameTooLong
      else .ok (p ++ [name]) := by
  -- the empty text has no slash behind it, so its walk is the name's alone
  have hway : '\x00' ∉ text.toList ∧
      (partsOf (joinPath text name)).foldlM files.step (startOf (joinPath text name)) =
        .ok (p ++ [name]) := by
    rcases h with ⟨rfl, rfl⟩ | ⟨hlocate, hp⟩
    · have hhead : name.toList.head? ≠ some '/' := fun h => hname.no_slash (List.mem_of_head? h)
      refine ⟨by simp, ?_⟩
      rw [joinPath, if_pos (.inl rfl), partsOf, split_of_not_mem hname.no_slash, startOf,
        if_neg hhead]
      simpa using hname.step (node?_working files)
    · obtain ⟨⟨⟩, hwalkable, hwalk⟩ := exists_of_bind_eq_ok hlocate
      obtain ⟨hnul, hne, -⟩ := walkable_eq_ok.mp hwalkable
      exact ⟨hnul, by rw [walk_joinPath hne hname.no_slash hwalk, hname.step hp]⟩
  rw [locate, walkable_joinPath hway.1 hname]
  split
  · rfl
  · exact hway.2

/-! ### Folders that are made -/

theorem keepsFolders_put {files : Files} {p : Path} (h : files.node? p ≠ some .folder)
    (hfree : Free p) (n : Node) : files.KeepsFolders (files.put p n) := by
  intro q hq
  have hne : q ≠ p := fun heq => h (heq ▸ hq)
  rw [node?_put hfree, if_neg hne, hq]

theorem FolderAt.createFolder_eq {files : Files} {text : String} {p : Path} (htext : text ≠ "")
    (h : files.FolderAt text p) : files.createFolder text = .error .fileExists := by
  obtain ⟨hlocate, hp⟩ := h.resolve_left fun h => htext h.1
  obtain ⟨⟨⟩, hwalkable, hwalk⟩ := exists_of_bind_eq_ok hlocate
  rw [createFolder, hwalkable, ok_bind, walk_withoutSlashes hwalk, ok_bind, hp]

theorem FolderAt.ensureFolder_eq {files : Files} {text : String} {p : Path} (htext : text ≠ "")
    (h : files.FolderAt text p) : files.ensureFolder text = (.ok (), files) := by
  obtain ⟨hlocate, hp⟩ := h.resolve_left fun h => htext h.1
  have hthere : files.leadsToFolder text = true := by simp [leadsToFolder, hlocate, isFolder, hp]
  simp [ensureFolder, h.createFolder_eq htext, hthere]

/-- **To make a folder that is there changes nothing.** -/
theorem FolderAt.createFolders_eq {files : Files} {text : String} {p : Path}
    (h : files.FolderAt text p) : files.createFolders text = (.ok (), files) := by
  rw [createFolders]
  split
  · rfl
  · next htext =>
    cases foldersAbove text with
    | nil => exact h.ensureFolder_eq htext
    | cons above rest =>
      rw [ensureFolderIn, h.createFolder_eq htext]
      exact h.ensureFolder_eq htext

/-- What is in one tree is in the other. -/
def Keeps (files files' : Files) : Prop :=
  ∀ p n, files.node? p = some n → files'.node? p = some n

theorem createFolder_keeps {files files' : Files} {text : String}
    (h : files.createFolder text = .ok files') : files.Keeps files' := by
  obtain ⟨⟨⟩, -, h⟩ := exists_of_bind_eq_ok h
  obtain ⟨p, -, h⟩ := exists_of_bind_eq_ok h
  split at h
  · next hnone =>
    obtain rfl := Except.ok.inj h
    intro q n hq
    have hne : q ≠ p := by
      rintro rfl
      cases hnone.symm.trans hq
    rw [node?_put (free_of_node?_none hnone), if_neg hne, hq]
  · cases h

theorem ensureFolder_keeps (files : Files) (text : String) :
    files.Keeps (files.ensureFolder text).2 := by
  rw [ensureFolder]
  split
  · next made hmade => exact createFolder_keeps hmade
  · exact fun _ _ hq => hq

theorem ensureFolderIn_keeps (files : Files) (text : String) (above : List String) :
    files.Keeps (files.ensureFolderIn text above).2 := by
  induction above generalizing text with
  | nil => exact ensureFolder_keeps files text
  | cons first rest ih =>
    have hfirst := ih first
    rw [ensureFolderIn]
    split
    · split
      · next made hmade =>
        rw [hmade] at hfirst
        exact fun q n hq => ensureFolder_keeps made text q n (hfirst q n hq)
      · exact hfirst
    · exact ensureFolder_keeps files text

/-- **What was there before folders are made is there afterwards.** -/
theorem createFolders_keeps (files : Files) (text : String) :
    files.Keeps (files.createFolders text).2 := by
  rw [createFolders]
  split
  · exact fun _ _ hq => hq
  · exact ensureFolderIn_keeps files text _

theorem folderAt_of_createFolder {files files' : Files} {text : String}
    (h : files.createFolder text = .ok files') : ∃ p, files'.FolderAt text p := by
  obtain ⟨⟨⟩, hwalkable, h⟩ := exists_of_bind_eq_ok h
  obtain ⟨p, hwalk, h⟩ := exists_of_bind_eq_ok h
  split at h
  · next hnone =>
    obtain rfl := Except.ok.inj h
    have hfree := free_of_node?_none hnone
    have hkeeps : files.KeepsFolders (files.put p .folder) :=
      keepsFolders_put (by simp [hnone]) hfree _
    have hfolder : (files.put p .folder).node? p = some .folder := by
      rw [node?_put hfree, if_pos rfl]
    -- the slashes at the end are walked once the folder is there
    obtain ⟨n, hparts⟩ := exists_withoutSlashes (partsOf text)
    refine ⟨p, .inr ⟨?_, hfolder⟩⟩
    rw [locate, hwalkable, ok_bind, hparts, List.foldlM_append, walk_mono hkeeps hwalk, ok_bind,
      walk_empty hfolder]
  · cases h

theorem folderAt_of_ensureFolder {files files' : Files} {text : String}
    (h : files.ensureFolder text = (.ok (), files')) : ∃ p, files'.FolderAt text p := by
  rw [ensureFolder] at h
  split at h
  · next made hmade =>
    obtain rfl := congrArg Prod.snd h
    exact folderAt_of_createFolder hmade
  · next why _ =>
    obtain rfl := congrArg Prod.snd h
    have hok := congrArg Prod.fst h
    split at hok
    · next hthere =>
      simp only [leadsToFolder] at hthere
      split at hthere
      · next p hlocate => exact ⟨p, .inr ⟨hlocate, by simpa [isFolder] using hthere⟩⟩
      · cases hthere
    · cases hok

/-- **A folder that is made is there.** -/
theorem folderAt_of_createFolders {files files' : Files} {text : String}
    (h : files.createFolders text = (.ok (), files')) : ∃ p, files'.FolderAt text p := by
  rw [createFolders] at h
  split at h
  · next htext => exact ⟨[], .inl ⟨htext, rfl⟩⟩
  · cases habove : foldersAbove text with
    | nil =>
      rw [habove, ensureFolderIn] at h
      exact folderAt_of_ensureFolder h
    | cons above rest =>
      rw [habove, ensureFolderIn] at h
      split at h
      · cases hrest : files.ensureFolderIn above rest with
        | mk result files'' =>
          rw [hrest] at h
          cases result with
          | ok => exact folderAt_of_ensureFolder h
          | error why => cases congrArg Prod.fst h
      · exact folderAt_of_ensureFolder h

/-- A folder stays where it is as long as no folder is lost. -/
theorem FolderAt.mono {files files' : Files} (h : files.KeepsFolders files') {text : String}
    {p : Path} (hp : files.FolderAt text p) : files'.FolderAt text p := by
  rcases hp with hempty | ⟨hlocate, hfolder⟩
  · exact .inl hempty
  · obtain ⟨⟨⟩, hwalkable, hwalk⟩ := exists_of_bind_eq_ok hlocate
    refine .inr ⟨?_, h p hfolder⟩
    rw [locate, hwalkable, ok_bind, walk_mono h hwalk]

end Files

end SignOff
