import MicroKernel.Fat12.Directory
import MicroKernel.Libc.String

set_option autoImplicit false

/-! # Opening a file of a floppy by its name (`fat12.c`)

`fat12_open_file` puts the name of every entry together again and compares it with the name it is
given. The base is trimmed of its spaces; the extension is appended as it is stored, with the spaces
behind it, unless it begins with a space. So the name that is put together is the displayed one for
an extension of no or of three characters only.

The current directory is a place in the array of entries, which every call frees and fills again:
`fat12_read_dir_entries` looks into an entry that is no longer there. What it finds is what the
memory holds by then; in an array that `malloc` hands out again as it was, that is an entry of the
directory that was read last (`dirRead_of_open`), and not the one that was changed to.
-/

namespace MicroKernel.Fat12

open MicroKernel.Lib Bytes Libc
open MicroKernel.Fat32 (Sector Env DirEntry entryAt)

/-! ## `fat12_open_file` -/

/-- `file_size`. -/
def fileSize (e : DirEntry) : Nat :=
  (e 28).toNat + 256 * ((e 29).toNat + 256 * ((e 30).toNat + 256 * (e 31).toNat))

/-- What `fat12_open_file` fills in of a `fat12_file`: the fields that reading uses and the cells of
the name. -/
structure Handle where
  file : File
  name : List UInt8

/-- The part of the loop that puts `trimmed_name` together. -/
def trimmedName (entry : DirEntry) : Option (List UInt8) := do
  let entryName ← strncpy (List.replicate 9 0) (List.ofFn entry) 8
  let entryExt ← strncpy (List.replicate 4 0) ((List.ofFn entry).drop 8) 3
  let trimmed ← strTrimSpaces entryName (List.replicate 13 0) 8
  if entryExt.head? ≠ some 0x20 then
    let trimmed ← strncat trimmed [0x2E, 0] 1
    strncat trimmed entryExt 3
  else some trimmed

/-- The loop over the entries: `file_entry` at its end. -/
def findFileEntry (filename : List UInt8) : List DirEntry → Option (Option DirEntry)
  | [] => some none
  | entry :: entries =>
      if entry.isEnd then some none
      else if entry.isDeleted then findFileEntry filename entries
      else if entry.isDirectory then findFileEntry filename entries
      else do
        let trimmed ← trimmedName entry
        let d ← strcmp trimmed filename
        if d = 0 then some (some entry) else findFileEntry filename entries

/-- `fat12_read_dir_entries(current_dir)`, with the array. The entry that `current_dir` points to is
looked into when the array has been freed and allocated again. -/
def readCurrentDir (k : Nat) : Io (Option (List DirEntry)) := do
  let s ← Prog.get
  let allocated ← Prog.ask fun e => e.junk (.store 0 :: e.path)
  let entries ← fat12ReadDirEntries k (s.currentDir.map (entryAt allocated))
  Prog.modify fun s => { s with entries := entries }
  return entries

/-- `fat12_open_file`. The pointers may be `NULL`; a string is the cells it leads to. -/
def fat12OpenFile (k : Nat) (filename mode : Option (List UInt8)) : Io (Option Handle) := do
  match filename, mode with
  | some filename, some _ =>
      let s ← Prog.get
      match s.fat12 with
      | none => return none
      | some v =>
          if v.fat.isNone then return none
          match strlen filename with
          | none => Prog.diverge
          | some filenameLen =>
              if filenameLen = 0 ∨ 12 < filenameLen then return none
              match ← within .find (readCurrentDir k) with
              | none => return none
              | some entries =>
                  match findFileEntry filename entries with
                  | none => Prog.diverge
                  | some none => return none
                  | some (some entry) =>
                      if !isValidClusterFat12 (firstClusterLow entry) then return none
                      if (← Prog.ask fun e => e.outOfMemory (.store 0 :: e.path)) then return none
                      if (← Prog.ask fun e => e.outOfMemory (.store 1 :: e.path)) then return none
                      match strncpy (List.replicate 13 0) filename 12 with
                      | none => Prog.diverge
                      | some name =>
                          return some ⟨⟨firstClusterLow entry, fileSize entry, 0⟩, name.set 12 0⟩
  | _, _ => return none

/-- The loop of `fat12_change_directory` from entry `i` on: the place of the entry that is found, and
the entry with its name trimmed in place. -/
def findDirEntry (relativePath : List UInt8) (i : Nat) :
    List DirEntry → Option (Option (Nat × DirEntry))
  | [] => some none
  | entry :: entries =>
      if entry.isEnd then some none
      else if entry.isDeleted then findDirEntry relativePath (i + 1) entries
      else if !entry.isDirectory then findDirEntry relativePath (i + 1) entries
      else do
        let entryName ← strncpy (List.replicate 9 0) (List.ofFn entry) 8
        let trimmed ← strTrimSpaces (entryName.set 8 0) (List.replicate 9 0) 8
        let d ← strcmp trimmed relativePath
        if d = 0 then
          let cells ← strTrimSpaces trimmed (List.ofFn entry) 8
          some (some (i, fun x => cells.getD x 0))
        else findDirEntry relativePath (i + 1) entries

/-- `fat12_change_directory`. -/
def fat12ChangeDirectory (k : Nat) (relativePath : List UInt8) : Io Bool := do
  match ← within .find (readCurrentDir k) with
  | none => return false
  | some entries =>
      match findDirEntry relativePath 0 entries with
      | none => Prog.diverge
      | some none => return false
      | some (some (i, entry)) =>
          Prog.modify fun s => { s with entries := some (entries.set i entry), currentDir := some i }
          return true

/-! ## Names -/

/-- `filename`. -/
def nameField (e : DirEntry) : List UInt8 := (List.ofFn e).take 8

/-- `extension`. -/
def extensionField (e : DirEntry) : List UInt8 := ((List.ofFn e).drop 8).take 3

/-- The base in front of the first zero without its spaces; then, unless the extension begins with a
space, a dot and all of the extension in front of the first zero. -/
def joinedName (e : DirEntry) : List UInt8 :=
  (text (nameField e)).filter (· ≠ 0x20) ++
    if (extensionField e).head? = some 0x20 then [] else 0x2E :: text (extensionField e)

/-- The name of a base and an extension. -/
def displayed (base extension : List UInt8) : List UInt8 :=
  base ++ if extension = [] then [] else 0x2E :: extension

/-- The fields hold a base that is not blank and an extension, each padded with spaces behind it and
without spaces in it. -/
structure Padded (e : DirEntry) (base extension : List UInt8) : Prop where
  base_ne : base ≠ []
  name_eq : nameField e = base ++ List.replicate (8 - base.length) 0x20
  extension_eq : extensionField e = extension ++ List.replicate (3 - extension.length) 0x20
  base_chars : ∀ c ∈ base, c ≠ 0x20 ∧ c ≠ 0
  extension_chars : ∀ c ∈ extension, c ≠ 0x20 ∧ c ≠ 0

/-- A file with a valid first cluster that is displayed as `nm`. -/
def NamedFile (nm : List UInt8) (e : DirEntry) : Prop :=
  e.isDirectory = false ∧ isValidClusterFat12 (firstClusterLow e) = true ∧
    ∃ base extension, Padded e base extension ∧ nm = displayed base extension

section names

variable {e : DirEntry} {base extension nm : List UInt8}

@[simp] theorem length_nameField (e : DirEntry) : (nameField e).length = 8 := by
  simp [nameField]

@[simp] theorem length_extensionField (e : DirEntry) : (extensionField e).length = 3 := by
  simp [extensionField]

theorem Padded.length_base (h : Padded e base extension) : base.length ≤ 8 := by
  have hlen := congrArg List.length h.name_eq
  simp at hlen
  omega

theorem Padded.length_extension (h : Padded e base extension) : extension.length ≤ 3 := by
  have hlen := congrArg List.length h.extension_eq
  simp at hlen
  omega

theorem Padded.length_displayed (h : Padded e base extension) :
    0 < (displayed base extension).length ∧ (displayed base extension).length ≤ 12 := by
  have hpos := List.length_pos_iff.mpr h.base_ne
  have hbase := h.length_base
  have hext := h.length_extension
  unfold displayed
  rw [List.length_append]
  split
  · simp
    omega
  · rw [List.length_cons]
    omega

theorem text_of_chars {l : List UInt8} (h : ∀ c ∈ l, c ≠ 0) : text l = l :=
  List.takeWhile_eq_self_iff.mpr fun c hc => decide_eq_true (h c hc)

/-- A padded field holds no zero. -/
theorem text_padded {l : List UInt8} (h : ∀ c ∈ l, c ≠ 0x20 ∧ c ≠ 0) (n : Nat) :
    text (l ++ List.replicate n 0x20) = l ++ List.replicate n 0x20 := by
  refine text_of_chars fun c hc => ?_
  rcases List.mem_append.mp hc with hl | hpad
  · exact (h c hl).2
  · rw [List.eq_of_mem_replicate hpad]
    decide

/-- The base of a well-formed entry is found again. -/
theorem Padded.filter_base (h : Padded e base extension) :
    (text (nameField e)).filter (· ≠ 0x20) = base := by
  rw [h.name_eq, text_padded h.base_chars, List.filter_append,
    List.filter_eq_self.mpr fun c hc => decide_eq_true (h.base_chars c hc).1,
    List.filter_eq_nil_iff.mpr fun c hc => by rw [List.eq_of_mem_replicate hc]; decide,
    List.append_nil]

/-- The name that is put together for a well-formed entry. -/
theorem Padded.joinedName_eq (h : Padded e base extension) :
    joinedName e = base ++ if extension = [] then [] else
      0x2E :: (extension ++ List.replicate (3 - extension.length) 0x20) := by
  unfold joinedName
  rw [h.filter_base, h.extension_eq, text_padded h.extension_chars]
  cases hext : extension with
  | nil => rfl
  | cons c rest =>
      have hc : c ≠ 0x20 := (h.extension_chars c (by rw [hext]; exact List.mem_cons_self)).1
      simp [hc]

/-- **The name that is put together is the displayed one** if and only if the extension has no
character or three. -/
theorem Padded.joinedName_eq_displayed_iff (h : Padded e base extension) :
    joinedName e = displayed base extension ↔ extension.length = 0 ∨ extension.length = 3 := by
  have hlen := h.length_extension
  rw [h.joinedName_eq, displayed, List.append_cancel_left_eq]
  split
  next hnil => simp [hnil]
  next hne =>
    have hpos := List.length_pos_iff.mpr hne
    rw [List.cons_inj_right, List.append_right_eq_self, List.replicate_eq_nil_iff]
    omega

/-- The characters that `str_trim_spaces` keeps of a field that was copied. -/
theorem filter_copied (l : List UInt8) (n : Nat) :
    (text l ++ List.replicate n 0).filter (fun c => decide (c ≠ 0x20 ∧ c ≠ 0))
      = (text l).filter (· ≠ 0x20) := by
  have hzeros : (List.replicate n (0 : UInt8)).filter (fun c => decide (c ≠ 0x20 ∧ c ≠ 0)) = [] := by
    rw [List.filter_replicate]
    rfl
  rw [List.filter_append, hzeros, List.append_nil]
  refine List.filter_congr fun c hc => ?_
  have hne : c ≠ 0 := fun h0 => zero_not_mem_text l (h0 ▸ hc)
  simp [hne]

/-- The first of the copied cells is a space if that of the field is. -/
theorem head_copied (l rest : List UInt8) (n : Nat) (hl : l ≠ []) :
    (text l ++ (List.replicate (n + 1) 0 ++ rest)).head? = some 0x20 ↔ l.head? = some 0x20 := by
  cases l with
  | nil => exact absurd rfl hl
  | cons c l =>
      rw [text_cons, List.replicate_succ]
      by_cases hc : c = 0 <;> simp [hc]

theorem length_text_le (l : List UInt8) : (text l).length ≤ l.length :=
  (List.takeWhile_sublist _).length_le

theorem zero_not_mem_joinedName (e : DirEntry) : 0 ∉ joinedName e := by
  unfold joinedName
  rw [List.mem_append, not_or]
  refine ⟨fun h => zero_not_mem_text _ (List.mem_filter.mp h).1, ?_⟩
  split
  · exact List.not_mem_nil
  · rw [List.mem_cons, not_or]
    exact ⟨by decide, zero_not_mem_text _⟩

/-- The base is trimmed into thirteen zeros. -/
theorem strTrimSpaces_copied {l base : List UInt8} (hl : l.length = 8)
    (hbase : base = (text l).filter (· ≠ 0x20)) :
    strTrimSpaces (text l ++ (List.replicate (8 - (text l).length) 0 ++ [0])) (List.replicate 13 0) 8
      = some (base ++ 0 :: List.replicate (12 - base.length) 0) := by
  have hle := length_text_le l
  have hroom : (text l ++ List.replicate (8 - (text l).length) (0 : UInt8)).length = 8 := by
    rw [List.length_append, List.length_replicate]
    omega
  rw [← List.append_assoc, strTrimSpaces_eq 8 _ _ (by rw [List.length_append, hroom]; omega)
      (by rw [List.length_replicate]; omega),
    List.take_left' hroom, filter_copied, ← hbase, List.drop_replicate, Nat.add_comm, ← Nat.sub_sub]

/-- The dot and the extension are appended to a base that leaves room for them. -/
theorem strncat_copied {base l : List UInt8} (hbase : 0 ∉ base) (hlen : base.length ≤ 8)
    (hl : (text l).length ≤ 3) :
    ∃ rest, (strncat (base ++ 0 :: List.replicate (12 - base.length) 0) [0x2E, 0] 1).bind
        (strncat · (text l ++ (List.replicate (3 - (text l).length) 0 ++ [0])) 3)
      = some (base ++ 0x2E :: text l ++ 0 :: rest) := by
  have hdot : strncat (base ++ 0 :: List.replicate (12 - base.length) 0) [0x2E, 0] 1
      = some (base ++ ([0x2E] ++ 0 :: (List.replicate (12 - base.length) 0).drop 1)) :=
    strncat_eq (m := [0x2E]) hbase (by decide) 1 _ (by simp; omega)
  have hends : List.replicate (3 - (text l).length) (0 : UInt8) ++ [0]
      = 0 :: List.replicate (3 - (text l).length) 0 := by
    rw [← List.replicate_succ', List.replicate_succ]
  have hbaseDot : 0 ∉ base ++ [0x2E] := by
    rw [List.mem_append, not_or]
    exact ⟨hbase, by decide⟩
  refine ⟨((List.replicate (12 - base.length) 0).drop 1).drop (text l).length, ?_⟩
  rw [hdot, Option.bind_some, ← List.append_assoc, hends,
    strncat_eq hbaseDot (zero_not_mem_text _) 3 _ (by simp; omega), List.take_of_length_le hl]
  simp only [List.append_assoc, List.cons_append, List.nil_append]

/-- **The name that the loop puts together**, for which `trimmed_name` has room. -/
theorem trimmedName_eq (e : DirEntry) :
    ∃ rest, trimmedName e = some (joinedName e ++ 0 :: rest) := by
  have hbase := length_text_le (nameField e)
  have hextension := length_text_le (extensionField e)
  rw [length_nameField] at hbase
  rw [length_extensionField] at hextension
  have hfield : extensionField e ≠ [] := by
    rw [← List.length_pos_iff, length_extensionField]
    decide
  have hblank : (text (extensionField e) ++ (List.replicate (3 - (text (extensionField e)).length) 0
      ++ [0])).head? = some 0x20 ↔ (extensionField e).head? = some 0x20 := by
    rw [← head_copied (extensionField e) [] (3 - (text (extensionField e)).length) hfield,
      List.append_nil, List.replicate_succ']
  have hname : strncpy (List.replicate 9 0) (List.ofFn e) 8 = some (text (nameField e)
      ++ (List.replicate (8 - (text (nameField e)).length) 0 ++ [0])) :=
    strncpy_cells 8 _ _ (by simp) (by simp)
  have hext : strncpy (List.replicate 4 0) ((List.ofFn e).drop 8) 3 = some (text (extensionField e)
      ++ (List.replicate (3 - (text (extensionField e)).length) 0 ++ [0])) :=
    strncpy_cells 3 _ _ (by simp) (by simp)
  unfold trimmedName joinedName
  simp only [Option.bind_eq_bind]
  rw [hname, hext, Option.bind_some, Option.bind_some, strTrimSpaces_copied (length_nameField e) rfl,
    Option.bind_some]
  by_cases hspace : (extensionField e).head? = some 0x20
  · rw [if_neg (not_not.mpr (hblank.mpr hspace)), if_pos hspace, List.append_nil]
    exact ⟨_, rfl⟩
  · rw [if_pos fun h => hspace (hblank.mp h), if_neg hspace]
    exact strncat_copied (fun h => zero_not_mem_text _ (List.mem_filter.mp h).1)
      ((List.length_filter_le _ _).trans hbase) hextension

end names

/-! ## The entry that is found -/

theorem mem_liveEntries {es : List DirEntry} {e : DirEntry} (h : e ∈ liveEntries es) :
    e.isEnd = false ∧ e.isDeleted = false := by
  obtain ⟨hfront, hlive⟩ := List.mem_filter.mp h
  have hend := List.mem_takeWhile_imp hfront
  simp only [Bool.and_eq_true, Bool.not_eq_true'] at hend hlive
  exact ⟨hend, hlive.1⟩

/-- A file for which the name `nm` is put together. -/
def IsJoined (nm : List UInt8) (e : DirEntry) : Prop := e.isDirectory = false ∧ joinedName e = nm

instance (nm : List UInt8) (e : DirEntry) : Decidable (IsJoined nm e) :=
  inferInstanceAs (Decidable (_ ∧ _))

/-- `m` is the first of the entries that is a file for which `nm` is put together. -/
def FirstJoined (nm : List UInt8) (es : List DirEntry) (m : DirEntry) : Prop :=
  IsJoined nm m ∧ ∃ before after, es = before ++ m :: after ∧ ∀ e ∈ before, ¬ IsJoined nm e

/-- The handle for an entry. -/
def handleOf (nm : List UInt8) (e : DirEntry) : Handle :=
  ⟨⟨firstClusterLow e, fileSize e, 0⟩, nm ++ List.replicate (13 - nm.length) 0⟩

/-- What is returned for the entry that is found. -/
def opened (nm : List UInt8) (found : Option DirEntry) : Option Handle :=
  found.bind fun m =>
    if isValidClusterFat12 (firstClusterLow m) then some (handleOf nm m) else none

/-- The entries that are listed have no end marker and no deleted entry among them. -/
def AllLive (es : List DirEntry) : Prop := ∀ e ∈ es, e.isEnd = false ∧ e.isDeleted = false

section found

variable {nm : List UInt8} {es : List DirEntry} {m : DirEntry}

theorem firstJoined_iff : FirstJoined nm es m ↔ es.find? (IsJoined nm) = some m := by
  rw [List.find?_eq_some_iff_append]
  simp [FirstJoined]

/-- What is returned is the handle for an entry if the first entry found has its first cluster and
its size. -/
theorem opened_eq_handleOf_iff {d : DirEntry} (hd : isValidClusterFat12 (firstClusterLow d) = true) :
    opened nm (es.find? (IsJoined nm)) = some (handleOf nm d) ↔ ∃ m, FirstJoined nm es m ∧
      firstClusterLow m = firstClusterLow d ∧ fileSize m = fileSize d := by
  constructor
  · intro h
    cases hfind : es.find? (IsJoined nm) with
    | none => simp [opened, hfind] at h
    | some m =>
        rw [hfind] at h
        unfold opened at h
        rw [Option.bind_some] at h
        split at h
        · have hfile := congrArg Handle.file (Option.some.inj h)
          exact ⟨m, firstJoined_iff.mpr hfind, congrArg File.startCluster hfile,
            congrArg File.size hfile⟩
        · cases h
  · rintro ⟨m, hm, hcluster, hsize⟩
    rw [firstJoined_iff.mp hm, opened, Option.bind_some, hcluster, if_pos hd, handleOf, handleOf,
      hcluster, hsize]

/-- Nothing is returned if the first entry found has no valid first cluster. -/
theorem opened_eq_none_iff : opened nm (es.find? (IsJoined nm)) = none ↔
    ∀ m, FirstJoined nm es m → isValidClusterFat12 (firstClusterLow m) = false := by
  constructor
  · intro h m hm
    rw [firstJoined_iff.mp hm, opened, Option.bind_some] at h
    cases hvalid : isValidClusterFat12 (firstClusterLow m) with
    | false => rfl
    | true => simp [hvalid] at h
  · intro h
    cases hfind : es.find? (IsJoined nm) with
    | none => rfl
    | some m => simp [opened, h m (firstJoined_iff.mpr hfind)]

/-- **The loop over the entries** finds the first one whose name is put together as `nm`. -/
theorem findFileEntry_eq (hnm : 0 ∉ nm) (rest : List UInt8) (hes : AllLive es) :
    findFileEntry (nm ++ 0 :: rest) es = some (es.find? (IsJoined nm)) := by
  induction es with
  | nil => rfl
  | cons e es ih =>
      obtain ⟨⟨hend, hdeleted⟩, hes'⟩ := List.forall_mem_cons.mp hes
      rw [findFileEntry, hend, hdeleted, if_neg Bool.false_ne_true, if_neg Bool.false_ne_true]
      cases hdir : e.isDirectory with
      | true =>
          rw [if_pos rfl, ih hes', List.find?_cons_of_neg (by simp [IsJoined, hdir])]
      | false =>
          obtain ⟨behind, htrimmed⟩ := trimmedName_eq e
          obtain ⟨d, hd, hiff⟩ := strcmp_eq (zero_not_mem_joinedName e) hnm behind rest
          rw [if_neg Bool.false_ne_true, htrimmed, Option.bind_eq_bind, Option.bind_some, hd]
          change (if d = 0 then _ else _) = _
          by_cases h0 : d = 0
          · rw [if_pos h0, List.find?_cons_of_pos (by simp [IsJoined, hdir, hiff.mp h0])]
          · have hne : joinedName e ≠ nm := fun h => h0 (hiff.mpr h)
            rw [if_neg h0, ih hes', List.find?_cons_of_neg (by simp [IsJoined, hne])]

end found

/-! ## What the array of entries holds -/

namespace Volume

/-- The entries that are in the array when the driver has read the directory that `dir` names: those
that the walk of `get_next_cluster` gathers, and none where the first cluster is not valid. -/
def ListedAs (V : Volume) (s : State) (dir : Option DirEntry) (es : List DirEntry) : Prop :=
  match dir with
  | none => es = listing (V.rootSlots s)
  | some d =>
      if firstClusterLow d = 0 then es = listing (V.rootSlots s)
      else if isValidClusterFat12 (firstClusterLow d) then
        s.GathersFrom V.fat12 (fun _ => 0) (firstClusterLow d) fat12MaxRootEntries es
      else es = []

variable {V : Volume} {s : State} {dir : Option DirEntry} {d : DirEntry} {es : List DirEntry} {e : Env}

theorem listedAs_root (hroot : TakesRoot dir) :
    V.ListedAs s dir es ↔ es = listing (V.rootSlots s) := by
  cases dir with
  | none => exact Iff.rfl
  | some d =>
      unfold ListedAs
      dsimp only
      rw [if_pos (hroot d rfl)]

theorem listedAs_sub (hvalid : isValidClusterFat12 (firstClusterLow d) = true) :
    V.ListedAs s (some d) es
      ↔ s.GathersFrom V.fat12 (fun _ => 0) (firstClusterLow d) fat12MaxRootEntries es := by
  have hne : firstClusterLow d ≠ 0 := by
    intro h0
    rw [h0] at hvalid
    cases hvalid
  unfold ListedAs
  dsimp only
  rw [if_neg hne, if_pos hvalid]

theorem listedAs_invalid (hne : firstClusterLow d ≠ 0)
    (hinvalid : ¬ isValidClusterFat12 (firstClusterLow d) = true) :
    V.ListedAs s (some d) es ↔ es = [] := by
  unfold ListedAs
  dsimp only
  rw [if_neg hne, if_neg hinvalid]

theorem ListedAs.unique {es' : List DirEntry} (h : V.ListedAs s dir es)
    (h' : V.ListedAs s dir es') : es = es' := by
  rcases root_or_sub dir with hroot | ⟨d, rfl, hne⟩
  · rw [(listedAs_root hroot).mp h, (listedAs_root hroot).mp h']
  · by_cases hvalid : isValidClusterFat12 (firstClusterLow d) = true
    · exact ((listedAs_sub hvalid).mp h).unique ((listedAs_sub hvalid).mp h')
    · rw [(listedAs_invalid hne hvalid).mp h, (listedAs_invalid hne hvalid).mp h']

theorem ListedAs.allLive (h : V.ListedAs s dir es) : AllLive es := by
  rcases root_or_sub dir with hroot | ⟨d, rfl, hne⟩
  · rw [(listedAs_root hroot).mp h]
    exact fun x hx => mem_liveEntries (List.mem_of_mem_take hx)
  · by_cases hvalid : isValidClusterFat12 (firstClusterLow d) = true
    · exact ((listedAs_sub hvalid).mp h).forall_mem fun _ _ hx => mem_liveEntries hx
    · rw [(listedAs_invalid hne hvalid).mp h]
      exact fun x hx => absurd hx List.not_mem_nil

/-- What a call that returns has put into the array. -/
theorem listedAs_of_run (h : V.On s) (hplaced : V.fat12.rootDirStart = V.rootStart) (he : e.Reliable)
    (hm : e.HasMemory) {k : Nat} {r : Option (List DirEntry) × State}
    (hrun : (fat12ReadDirEntries k dir).run e s = some r) :
    V.ListedAs s dir (r.1.getD []) ∧ r.2 = s := by
  have hbps : 512 ≤ V.fat12.bootSector.bytesPerSector := V.bytesPerSector_eq.ge
  rcases root_or_sub dir with hroot | ⟨d, rfl, hne⟩
  · obtain ⟨r', hrun', hlist⟩ := run_fat12ReadDirEntries_root (e := e) h hbps hroot k
    obtain ⟨junk, rfl⟩ := hlist he hm
    rw [hrun', V.bytesPerSector_eq, rootSlots_eq h hplaced] at hrun
    obtain rfl := Option.some.inj hrun
    exact ⟨(listedAs_root hroot).mpr rfl, rfl⟩
  · by_cases hvalid : isValidClusterFat12 (firstClusterLow d) = true
    · obtain ⟨es, hes, rfl⟩ := gathersFrom_of_call h hbps hvalid he hm hrun
      exact ⟨(listedAs_sub hvalid).mpr (gathersFrom_junk hes _), rfl⟩
    · rw [run_fat12ReadDirEntries_invalid hne hvalid] at hrun
      obtain rfl := Option.some.inj hrun
      exact ⟨(listedAs_invalid hne hvalid).mpr rfl, rfl⟩

/-- A call returns when the array comes to be filled. -/
theorem exists_run_of_listedAs (h : V.On s) (he : e.Reliable) (hm : e.HasMemory)
    (hes : V.ListedAs s dir es) :
    ∃ k r, (fat12ReadDirEntries k dir).run e s = some (r, s) := by
  have hbps : 512 ≤ V.fat12.bootSector.bytesPerSector := V.bytesPerSector_eq.ge
  rcases root_or_sub dir with hroot | ⟨d, rfl, hne⟩
  · obtain ⟨r, hrun, -⟩ := run_fat12ReadDirEntries_root (e := e) h hbps hroot 0
    exact ⟨0, r, hrun⟩
  · by_cases hvalid : isValidClusterFat12 (firstClusterLow d) = true
    · have hjunk := gathersFrom_junk ((listedAs_sub hvalid).mp hes) (e.junk (.store 1 :: e.path))
      rcases run_fat12ReadDirEntries_sub hvalid e s with ⟨hno, -⟩ | hloop
      · exact absurd hm hno
      · have hempty : ([] : List DirEntry).length ≤ fat12MaxRootEntries := Nat.zero_le _
        obtain ⟨k, r, hrun⟩ := exists_run_of_gathersFrom (e := e) h hbps hjunk 0 hvalid hempty rfl
          fun _ => rfl
        rw [← hloop k] at hrun
        obtain ⟨es', -, rfl⟩ := gathersFrom_of_call h hbps hvalid he hm hrun
        exact ⟨k, _, hrun⟩
    · exact ⟨0, none, run_fat12ReadDirEntries_invalid hne hvalid e s 0⟩

end Volume

/-! ## When a file is opened by its name -/

/-- What `fat12_read_dir_entries` looks into for the current directory: nothing for `NULL`, and else
the place that `current_dir` points to in the array, once it has been freed and allocated again. -/
def State.dirRead (s : State) (e : Env) : Option DirEntry :=
  s.currentDir.map (entryAt (e.junk (.store 0 :: e.path)))

/-- A call with the name `nm` returns `r`, and changes nothing but the array of entries. -/
def OpenReturns (e : Env) (s : State) (nm : List UInt8) (r : Option Handle) : Prop :=
  ∀ rest mode, (∃ k entries, (fat12OpenFile k (some (nm ++ 0 :: rest)) (some mode)).run e s
      = some (r, { s with entries := entries })) ∧
    ∀ k r', (fat12OpenFile k (some (nm ++ 0 :: rest)) (some mode)).run e s = some r' →
      ∃ entries, r' = (r, { s with entries := entries })

/-- For a caller in the directory with these slots, the name of each file opens it or one with the
same name in front of it, and a name of at most 12 characters that no file has opens nothing. -/
structure OpensByName (e : Env) (s : State) (slots : List DirEntry) (nm : List UInt8) : Prop where
  found : ∀ before d after, liveEntries slots = before ++ d :: after → NamedFile nm d →
    ∃ d' ∈ before ++ [d], NamedFile nm d' ∧ OpenReturns e s nm (some (handleOf nm d'))
  absent : nm.length ≤ 12 → (∀ d ∈ liveEntries slots, ¬ NamedFile nm d) → OpenReturns e s nm none

/-- The condition on the entries `es` that are in the array: where the directory has a file with the
name, the first one for which the name is put together has the first cluster and the size of the
first one with the name; where it has none, the first one for which it is put together, if there is
one, has no valid first cluster. -/
structure NameFound (slots es : List DirEntry) (nm : List UInt8) : Prop where
  found : ∀ before d after, liveEntries slots = before ++ d :: after → NamedFile nm d →
    (∀ x ∈ before, ¬ NamedFile nm x) →
      ∃ m, FirstJoined nm es m ∧ firstClusterLow m = firstClusterLow d ∧ fileSize m = fileSize d
  absent : (∀ d ∈ liveEntries slots, ¬ NamedFile nm d) →
    ∀ m, FirstJoined nm es m → isValidClusterFat12 (firstClusterLow m) = false

section opens

variable {V : Volume} {s : State} {es slots : List DirEntry} {e : Env} {nm : List UInt8}

/-- The cells of the name in the handle. -/
theorem strncpy_handle (hnm : 0 ∉ nm) (hlen : nm.length ≤ 12) (rest : List UInt8) :
    (strncpy (List.replicate 13 0) (nm ++ 0 :: rest) 12).map (fun name => name.set 12 0)
      = some (nm ++ List.replicate (13 - nm.length) 0) := by
  have hends : List.replicate (12 - nm.length) (0 : UInt8) ++ [0]
      = List.replicate (13 - nm.length) 0 := by
    rw [← List.replicate_succ']
    congr 1
    omega
  rw [strncpy_eq hnm _ _ (by simp), List.take_of_length_le hlen]
  change some ((nm ++ (List.replicate (12 - nm.length) 0 ++ [0])).set 12 0) = _
  rw [hends, List.set_append_right _ _ hlen, List.set_replicate_self]

/-- The read of the current directory. -/
theorem run_readCurrentDir (k : Nat) (e : Env) (s : State) :
    (readCurrentDir k).run e s = ((fat12ReadDirEntries k (s.dirRead e)).run e s).map fun r =>
      (r.1, { r.2 with entries := r.1 }) := by
  unfold readCurrentDir
  rw [Prog.run_bind, Prog.run_get, Option.bind_some, Prog.run_bind, Prog.run_ask, Option.bind_some,
    Prog.run_bind]
  change ((fat12ReadDirEntries k (s.dirRead e)).run e s).bind _ = _
  cases (fat12ReadDirEntries k (s.dirRead e)).run e s <;> rfl

/-- **A call with the name `nm`**: the length is tested, the current directory is read, and its
entries are gone through. -/
theorem run_fat12OpenFile (h : V.On s) (hnm : 0 ∉ nm) (hm : e.HasMemory) (rest mode : List UInt8)
    (k : Nat) :
    (fat12OpenFile k (some (nm ++ 0 :: rest)) (some mode)).run e s
      = if nm.length = 0 ∨ 12 < nm.length then some (none, s)
        else ((fat12ReadDirEntries k (s.dirRead (e.enter .find))).run (e.enter .find) s).bind fun r =>
          (findFileEntry (nm ++ 0 :: rest) (r.1.getD [])).map fun m =>
            (opened nm m, { r.2 with entries := r.1 }) := by
  unfold fat12OpenFile
  dsimp only
  rw [Prog.run_bind, Prog.run_get, Option.bind_some]
  dsimp only
  rw [show s.fat12 = some V.fat12 from h]
  dsimp only
  rw [V.fat_eq, strlen_eq hnm, Option.isNone_some, Prog.run_ite, if_neg Bool.false_ne_true]
  dsimp only
  rw [Prog.run_ite]
  by_cases hbad : nm.length = 0 ∨ 12 < nm.length
  · rw [if_pos hbad, if_pos hbad]
    rfl
  rw [if_neg hbad, if_neg hbad, Prog.run_bind]
  change ((readCurrentDir k).run (e.enter .find) s).bind _ = _
  rw [run_readCurrentDir, Option.bind_map]
  refine congrArg _ (funext fun r => ?_)
  rcases r with ⟨_ | es, s'⟩
  · rfl
  dsimp only [Function.comp_apply, Option.getD_some]
  rcases findFileEntry (nm ++ 0 :: rest) es with _ | _ | m
  · rfl
  · rfl
  dsimp only
  cases hvalid : isValidClusterFat12 (firstClusterLow m) with
  | false => simp [opened, hvalid]
  | true =>
      have hstore : ∀ i, e.outOfMemory (.store i :: e.path) = false := fun i => hm _
      obtain ⟨name, hname, hset⟩ := Option.map_eq_some_iff.mp
        (strncpy_handle hnm (Nat.le_of_not_lt fun hlt => hbad (Or.inr hlt)) rest)
      rw [hname]
      simp [opened, hvalid, hstore, handleOf, hset]

theorem openReturns_of_length (h : V.On s) (hnm : 0 ∉ nm) (hm : e.HasMemory)
    (hlen : nm.length = 0 ∨ 12 < nm.length) : OpenReturns e s nm none := by
  intro rest mode
  have hrun : ∀ k, (fat12OpenFile k (some (nm ++ 0 :: rest)) (some mode)).run e s
      = some (none, s) := by
    intro k
    rw [run_fat12OpenFile h hnm hm, if_pos hlen]
  exact ⟨⟨0, s.entries, hrun 0⟩,
    fun k r' h' => ⟨s.entries, (Option.some.inj ((hrun k).symm.trans h')).symm⟩⟩

/-- What a call returns once the array is filled. -/
theorem run_fat12OpenFile_of_run (h : V.On s) (hnm : 0 ∉ nm)
    (hlen : ¬ (nm.length = 0 ∨ 12 < nm.length)) (hm : e.HasMemory) (rest mode : List UInt8) {k : Nat}
    {entries : Option (List DirEntry)} (hes : AllLive (entries.getD []))
    (hrun : (fat12ReadDirEntries k (s.dirRead (e.enter .find))).run (e.enter .find) s
      = some (entries, s)) :
    (fat12OpenFile k (some (nm ++ 0 :: rest)) (some mode)).run e s
      = some (opened nm ((entries.getD []).find? (IsJoined nm)), { s with entries := entries }) := by
  rw [run_fat12OpenFile h hnm hm, if_neg hlen, hrun, Option.bind_some]
  dsimp only
  rw [findFileEntry_eq hnm rest hes, Option.map_some]

/-- The array was filled by a call that returned. -/
theorem exists_listedAs_of_run (h : V.On s) (hplaced : V.fat12.rootDirStart = V.rootStart)
    (hnm : 0 ∉ nm) (hlen : ¬ (nm.length = 0 ∨ 12 < nm.length)) (he : e.Reliable) (hm : e.HasMemory)
    {rest mode : List UInt8} {k : Nat} {r : Option Handle × State}
    (hrun : (fat12OpenFile k (some (nm ++ 0 :: rest)) (some mode)).run e s = some r) :
    ∃ entries, V.ListedAs s (s.dirRead (e.enter .find)) (entries.getD []) ∧
      r = (opened nm ((entries.getD []).find? (IsJoined nm)), { s with entries := entries }) := by
  have hread := hrun
  rw [run_fat12OpenFile h hnm hm, if_neg hlen] at hread
  obtain ⟨⟨entries, s'⟩, hq, -⟩ := Option.bind_eq_some_iff.mp hread
  obtain ⟨hes, rfl⟩ := Volume.listedAs_of_run h hplaced (he.enter .find) hm hq
  rw [run_fat12OpenFile_of_run h hnm hlen hm rest mode hes.allLive hq] at hrun
  exact ⟨entries, hes, (Option.some.inj hrun).symm⟩

theorem openReturns_of_listedAs (h : V.On s) (hplaced : V.fat12.rootDirStart = V.rootStart)
    (hnm : 0 ∉ nm) (hlen : ¬ (nm.length = 0 ∨ 12 < nm.length)) (he : e.Reliable) (hm : e.HasMemory)
    (hes : V.ListedAs s (s.dirRead (e.enter .find)) es) :
    OpenReturns e s nm (opened nm (es.find? (IsJoined nm))) := by
  intro rest mode
  have hreturned : ∀ k r', (fat12OpenFile k (some (nm ++ 0 :: rest)) (some mode)).run e s = some r' →
      ∃ entries, r' = (opened nm (es.find? (IsJoined nm)), { s with entries := entries }) := by
    intro k r' hrun
    obtain ⟨entries, hes', rfl⟩ := exists_listedAs_of_run h hplaced hnm hlen he hm hrun
    exact ⟨entries, by rw [hes.unique hes']⟩
  refine ⟨?_, hreturned⟩
  obtain ⟨k, entries, hrun⟩ := Volume.exists_run_of_listedAs h (he.enter .find) hm hes
  obtain ⟨hes', -⟩ := Volume.listedAs_of_run h hplaced (he.enter .find) hm hrun
  have hopen := run_fat12OpenFile_of_run h hnm hlen hm rest mode hes'.allLive hrun
  rw [hes'.unique hes] at hopen
  exact ⟨k, entries, hopen⟩

theorem OpenReturns.exists_listedAs {r : Option Handle} (hr : OpenReturns e s nm r) (h : V.On s)
    (hplaced : V.fat12.rootDirStart = V.rootStart) (hnm : 0 ∉ nm)
    (hlen : ¬ (nm.length = 0 ∨ 12 < nm.length)) (he : e.Reliable) (hm : e.HasMemory) :
    ∃ es, V.ListedAs s (s.dirRead (e.enter .find)) es ∧ opened nm (es.find? (IsJoined nm)) = r := by
  obtain ⟨⟨k, entries, hrun⟩, -⟩ := hr [] []
  obtain ⟨entries', hes, heq⟩ := exists_listedAs_of_run h hplaced hnm hlen he hm hrun
  exact ⟨_, hes, (Prod.mk.inj heq).1.symm⟩

/-- The first of the files with a name. -/
theorem exists_first_namedFile (l : List DirEntry) : (∀ d ∈ l, ¬ NamedFile nm d) ∨
    ∃ before d after, l = before ++ d :: after ∧ NamedFile nm d ∧
      ∀ x ∈ before, ¬ NamedFile nm x := by
  induction l with
  | nil => exact Or.inl fun d hd => absurd hd List.not_mem_nil
  | cons e l ih =>
      by_cases hnamed : NamedFile nm e
      · exact Or.inr ⟨[], e, l, rfl, hnamed, fun x hx => absurd hx List.not_mem_nil⟩
      · rcases ih with hnone | ⟨before, d, after, rfl, hd, hbefore⟩
        · exact Or.inl (List.forall_mem_cons.mpr ⟨hnamed, hnone⟩)
        · exact Or.inr ⟨e :: before, d, after, rfl, hd, List.forall_mem_cons.mpr ⟨hnamed, hbefore⟩⟩

theorem NamedFile.length {d : DirEntry} (h : NamedFile nm d) : ¬ (nm.length = 0 ∨ 12 < nm.length) := by
  obtain ⟨-, -, base, extension, hpadded, rfl⟩ := h
  have hlen := hpadded.length_displayed
  omega

/-- What a directory in which the name opens what it should has in the array. -/
theorem OpensByName.nameFound (hopens : OpensByName e s slots nm) (h : V.On s)
    (hplaced : V.fat12.rootDirStart = V.rootStart) (he : e.Reliable) (hm : e.HasMemory)
    (hnm : 0 ∉ nm) (hne : nm ≠ []) (hle : nm.length ≤ 12) :
    ∃ es, V.ListedAs s (s.dirRead (e.enter .find)) es ∧ NameFound slots es nm := by
  have hlen : ¬ (nm.length = 0 ∨ 12 < nm.length) := by
    have hpos := List.length_pos_iff.mpr hne
    omega
  -- whatever the directory holds, a call returns
  obtain ⟨r, hany⟩ : ∃ r, OpenReturns e s nm r := by
    rcases exists_first_namedFile (liveEntries slots) with hnone | ⟨before, d, after, hl, hd, -⟩
    · exact ⟨none, hopens.absent hle hnone⟩
    · obtain ⟨d', -, -, hret⟩ := hopens.found before d after hl hd
      exact ⟨_, hret⟩
  obtain ⟨es, hes, -⟩ := hany.exists_listedAs h hplaced hnm hlen he hm
  have hreturned : ∀ r, OpenReturns e s nm r → opened nm (es.find? (IsJoined nm)) = r := by
    intro r hret
    obtain ⟨es', hes', hr⟩ := hret.exists_listedAs h hplaced hnm hlen he hm
    rw [hes.unique hes', hr]
  refine ⟨es, hes, ?_, fun hnone => opened_eq_none_iff.mp (hreturned _ (hopens.absent hle hnone))⟩
  intro before d after hl hd hfirst
  obtain ⟨d', hd', hnamed, hret⟩ := hopens.found before d after hl hd
  -- no file in front of the first one has its name
  obtain rfl : d' = d := by
    rcases List.mem_append.mp hd' with hfront | hlast
    · exact absurd hnamed (hfirst d' hfront)
    · exact List.mem_singleton.mp hlast
  exact (opened_eq_handleOf_iff hnamed.2.1).mp (hreturned _ hret)

theorem opensByName_of_nameFound (h : V.On s) (hplaced : V.fat12.rootDirStart = V.rootStart)
    (he : e.Reliable) (hm : e.HasMemory) (hnm : 0 ∉ nm)
    (hcond : nm ≠ [] → nm.length ≤ 12 →
      ∃ es, V.ListedAs s (s.dirRead (e.enter .find)) es ∧ NameFound slots es nm) :
    OpensByName e s slots nm := by
  constructor
  · intro before d after hl hd
    have hlen := hd.length
    obtain ⟨es, hes, hfound⟩ := hcond (fun h0 => hlen (Or.inl (by rw [h0]; rfl)))
      (Nat.le_of_not_lt fun hlt => hlen (Or.inr hlt))
    rcases exists_first_namedFile (before ++ [d]) with hnone | ⟨before', d', after', hl', hd', hfirst⟩
    · exact absurd hd (hnone d (List.mem_append_right _ List.mem_cons_self))
    have hsplit : liveEntries slots = before' ++ d' :: (after' ++ after) :=
      calc
        liveEntries slots = before ++ [d] ++ after := by rw [hl, List.append_cons]
        _ = before' ++ d' :: (after' ++ after) := by
          rw [hl', List.append_assoc, List.cons_append]
    have hopened := (opened_eq_handleOf_iff hd'.2.1).mpr (hfound.found before' d' _ hsplit hd' hfirst)
    refine ⟨d', hl' ▸ List.mem_append_right _ List.mem_cons_self, hd', ?_⟩
    rw [← hopened]
    exact openReturns_of_listedAs h hplaced hnm hlen he hm hes
  · intro hle hnone
    by_cases hlen : nm.length = 0 ∨ 12 < nm.length
    · exact openReturns_of_length h hnm hm hlen
    · obtain ⟨es, hes, hfound⟩ := hcond (fun h0 => hlen (Or.inl (by rw [h0]; rfl))) hle
      rw [← opened_eq_none_iff.mpr (hfound.absent hnone)]
      exact openReturns_of_listedAs h hplaced hnm hlen he hm hes

end opens

/-- **Opening a file by its displayed name.** For every directory, every name and every state of the
memory, exactly when the array of entries comes to be filled with the directory that is looked into,
and the name that is put together finds in it what the displayed names promise. -/
theorem opensByName_iff {V : Volume} {s : State} {e : Env} {slots : List DirEntry} {nm : List UInt8}
    (h : V.On s) (hplaced : V.fat12.rootDirStart = V.rootStart) (he : e.Reliable) (hm : e.HasMemory)
    (hnm : 0 ∉ nm) :
    OpensByName e s slots nm ↔ (nm ≠ [] → nm.length ≤ 12 →
      ∃ es, V.ListedAs s (s.dirRead (e.enter .find)) es ∧ NameFound slots es nm) :=
  ⟨fun hopens => hopens.nameFound h hplaced he hm hnm,
    opensByName_of_nameFound h hplaced he hm hnm⟩

/-- Where the extension has no character or three and no other file in front is found, the file is the
one that is found. -/
theorem Padded.firstJoined {es before after : List DirEntry} {d : DirEntry}
    {base extension : List UInt8} (h : Padded d base extension) (hfile : d.isDirectory = false)
    (hlen : extension.length = 0 ∨ extension.length = 3) (hes : es = before ++ d :: after)
    (hbefore : ∀ x ∈ before, ¬ IsJoined (displayed base extension) x) :
    FirstJoined (displayed base extension) es d :=
  ⟨⟨hfile, h.joinedName_eq_displayed_iff.mpr hlen⟩, before, after, hes, hbefore⟩

/-! ## Where the current directory is -/

/-- `malloc` hands out the array of entries as it was. -/
def State.Untouched (s : State) (e : Env) : Prop :=
  ∀ es i d, s.entries = some es → es[i]? = some d → entryAt (e.junk (.store 0 :: e.path)) i = d

section place

variable {V : Volume} {s s' : State} {es : List DirEntry} {e e' : Env} {nm : List UInt8} {i : Nat}
  {d : DirEntry}

theorem State.Untouched.dirRead_eq (h : s.Untouched e) (hi : s.currentDir = some i)
    (hes : s.entries = some es) (hd : es[i]? = some d) : s.dirRead e = some d := by
  rw [dirRead, hi, Option.map_some, h es i d hes hd]

/-- **The current directory moves on.** After a call in a directory that was changed to, the next one
looks into the entry that has come to be in its place: one of the directory that was read. -/
theorem dirRead_of_open (h : V.On s) (hplaced : V.fat12.rootDirStart = V.rootStart) (hnm : 0 ∉ nm)
    (hlen : ¬ (nm.length = 0 ∨ 12 < nm.length)) (he : e.Reliable) (hm : e.HasMemory)
    (hi : s.currentDir = some i) (hes : V.ListedAs s (s.dirRead (e.enter .find)) es)
    (hd : es[i]? = some d) {rest mode : List UInt8} {k : Nat} {r : Option Handle}
    (hrun : (fat12OpenFile k (some (nm ++ 0 :: rest)) (some mode)).run e s = some (r, s'))
    (hkept : s'.Untouched e') : s'.dirRead e' = some d := by
  obtain ⟨entries, hes', heq⟩ := exists_listedAs_of_run h hplaced hnm hlen he hm hrun
  obtain ⟨-, rfl⟩ := Prod.mk.inj heq
  have hentries := hes'.unique hes
  cases entries with
  | none =>
      rw [Option.getD_none] at hentries
      rw [← hentries] at hd
      cases hd
  | some es' =>
      rw [Option.getD_some] at hentries
      exact hkept.dirRead_eq hi rfl (hentries ▸ hd)

/-- The entry that is found is a subdirectory; trimming its name leaves its first cluster alone. -/
theorem findDirEntry_spec {relativePath : List UInt8} {j m : Nat} {x : DirEntry}
    (h : findDirEntry relativePath m es = some (some (j, x))) :
    ∃ n d, j = m + n ∧ es[n]? = some d ∧ d.isDirectory = true ∧
      firstClusterLow x = firstClusterLow d := by
  induction es generalizing m with
  | nil => cases h
  | cons entry es ih =>
      have hnext : findDirEntry relativePath (m + 1) es = some (some (j, x)) →
          ∃ n d, j = m + n ∧ (entry :: es)[n]? = some d ∧ d.isDirectory = true ∧
            firstClusterLow x = firstClusterLow d := by
        intro hes
        obtain ⟨n, d, hj, hd, hrest⟩ := ih hes
        exact ⟨n + 1, d, by omega, hd, hrest⟩
      rw [findDirEntry] at h
      split at h
      · cases h
      split at h
      · exact hnext h
      split at h
      · exact hnext h
      next hdir =>
      obtain ⟨entryName, -, h⟩ := Option.bind_eq_some_iff.mp h
      obtain ⟨trimmed, -, h⟩ := Option.bind_eq_some_iff.mp h
      obtain ⟨c, -, h⟩ := Option.bind_eq_some_iff.mp h
      split at h
      · obtain ⟨cells, hcells, h⟩ := Option.bind_eq_some_iff.mp h
        cases h
        -- the name has at most eight characters and a zero
        have hcell : ∀ y : Fin 32, 8 < y.val → cells.getD y 0 = entry y := by
          intro y hy
          rw [List.getD_eq_getElem?_getD, getElem?_strTrimSpaces hy hcells, List.getElem?_ofFn,
            dif_pos y.isLt]
          rfl
        refine ⟨0, entry, rfl, rfl, by simpa using hdir, ?_⟩
        unfold firstClusterLow
        dsimp only
        rw [hcell 26 (by decide), hcell 27 (by decide)]
      · exact hnext h

/-- **The directory that is changed to.** The next call looks into the entry of a subdirectory of the
directory that was read. -/
theorem dirRead_of_change (h : V.On s) (hplaced : V.fat12.rootDirStart = V.rootStart)
    (he : e.Reliable) (hm : e.HasMemory) {relativePath : List UInt8} {k : Nat}
    (hrun : (fat12ChangeDirectory k relativePath).run e s = some (true, s')) (hkept : s'.Untouched e') :
    ∃ es, V.ListedAs s (s.dirRead (e.enter .find)) es ∧ ∃ d ∈ es, d.isDirectory = true ∧
      ∃ x, s'.dirRead e' = some x ∧ firstClusterLow x = firstClusterLow d := by
  unfold fat12ChangeDirectory at hrun
  obtain ⟨⟨entries, s₁⟩, hread, hrun⟩ := Option.bind_eq_some_iff.mp hrun
  change (readCurrentDir k).run (e.enter .find) s = _ at hread
  rw [run_readCurrentDir] at hread
  obtain ⟨⟨entries', s₂⟩, hcall, heq⟩ := Option.map_eq_some_iff.mp hread
  obtain ⟨hes, rfl⟩ := Volume.listedAs_of_run h hplaced (he.enter .find) hm hcall
  obtain ⟨rfl, rfl⟩ := Prod.mk.inj heq
  cases entries' with
  | none => cases hrun
  | some es =>
      rw [Option.getD_some] at hes
      dsimp only at hrun
      rcases hfind : findDirEntry relativePath 0 es with _ | _ | ⟨i, x⟩
      · rw [hfind] at hrun
        cases hrun
      · rw [hfind] at hrun
        cases hrun
      · rw [hfind] at hrun
        obtain ⟨n, d, hi, hd, hdir, hcluster⟩ := findDirEntry_spec hfind
        rw [Nat.zero_add] at hi
        subst hi
        obtain rfl := (Prod.mk.inj (Option.some.inj hrun)).2
        have hlt : i < es.length := (List.getElem?_eq_some_iff.mp hd).1
        refine ⟨es, hes, d, List.mem_of_getElem? hd, hdir, x, ?_, hcluster⟩
        exact hkept.dirRead_eq rfl rfl (List.getElem?_set_self hlt)

end place

/-! ### A floppy with one file -/

/-- A small volume. -/
def oneFileVolume : Volume where
  fat12 := oneSectorFat [0xFF0, 0xFFF, 0xFFF]
  fat := pack12 [0xFF0, 0xFFF, 0xFFF]
  clusters := 300
  fat_eq := rfl
  bytesPerSector_eq := rfl
  dataStart_eq := rfl
  sectorsPerCluster_pos := by decide
  sectorsPerCluster_le := by decide
  spt_lt := by decide
  heads_le := by decide
  clusters_lt := oneSectorFat_clusters_lt
  stop_le := by decide
  fat_room := by decide

/-- The file of base `A`, with the last character `c` of the extension behind `TX`, in cluster 2. -/
def fileEntry (c : UInt8) : DirEntry := fun i =>
  if i = 0 then 0x41 else if i < 8 then 0x20 else if i = 8 then 0x54 else if i = 9 then 0x58
  else if i = 10 then c else if i = 11 then 0x20 else if i = 26 then 2 else if i = 28 then 5 else 0

/-- Each sector of the floppy begins with the entry of the file, and holds nothing else. -/
def oneFileState (c : UInt8) : State where
  floppies := fun _ _ _ _ x => if h : x.val < 32 then fileEntry c ⟨x, h⟩ else 0
  fat12 := some oneFileVolume.fat12
  currentFddDrive := 0
  files := fun _ => none
  entries := none
  currentDir := none

theorem attr_fileEntry (c : UInt8) : (fileEntry c).attr = 0x20 := rfl

theorem liveEntries_oneFile (c : UInt8) :
    liveEntries (oneFileVolume.rootSlots (oneFileState c)) = [fileEntry c] := by
  let buffer := joined 512 fun i =>
    Sector.bytes (oneFileVolume.sector (oneFileState c) (oneFileVolume.rootStart + i))
  have hslots : oneFileVolume.rootSlots (oneFileState c)
      = entryAt buffer 0 :: entryAt buffer 1 :: slots buffer 2 14 := rfl
  have hfirst : entryAt buffer 0 = fileEntry c := by
    funext i
    have hi := i.isLt
    have hpos : (32 * 0 + i.val) % 512 = i.val := by omega
    change Sector.bytes _ ((32 * 0 + i.val) % 512) = _
    rw [hpos, Sector.bytes, dif_pos (by omega)]
    exact dif_pos hi
  have hsecond : (entryAt buffer 1).isEnd = true := rfl
  have hend : (fileEntry c).isEnd = false := rfl
  have hdeleted : (fileEntry c).isDeleted = false := rfl
  have hlfn : (fileEntry c).isLfn = false := by
    rw [DirEntry.isLfn, attr_fileEntry]
    rfl
  rw [hslots, liveEntries_cons, liveEntries_cons, hfirst, hsecond, hend, hdeleted, hlfn]
  rfl

theorem listedAs_oneFile (c : UInt8) :
    oneFileVolume.ListedAs (oneFileState c) none [fileEntry c] := by
  change [fileEntry c] = (liveEntries (oneFileVolume.rootSlots (oneFileState c))).take _
  rw [liveEntries_oneFile]
  rfl

theorem padded_fileEntry : Padded (fileEntry 0x54) [0x41] [0x54, 0x58, 0x54] :=
  ⟨by simp, rfl, rfl, by simp, by simp⟩

theorem isDirectory_fileEntry (c : UInt8) : (fileEntry c).isDirectory = false := by
  rw [DirEntry.isDirectory, attr_fileEntry]
  rfl

theorem namedFile_fileEntry {c : UInt8} {extension : List UInt8}
    (h : Padded (fileEntry c) [0x41] extension) :
    NamedFile (displayed [0x41] extension) (fileEntry c) :=
  ⟨isDirectory_fileEntry c, rfl, _, _, h, rfl⟩

/-- `A.TXT` opens the file. -/
theorem opensByName_iff_txt : OpensByName Fat32.quietEnv (oneFileState 0x54)
    (oneFileVolume.rootSlots (oneFileState 0x54)) [0x41, 0x2E, 0x54, 0x58, 0x54] := by
  have hon : oneFileVolume.On (oneFileState 0x54) := rfl
  refine (opensByName_iff hon rfl Fat32.quietEnv_reliable Fat32.quietEnv_hasMemory (by decide)).mpr
    fun _ _ => ⟨_, listedAs_oneFile 0x54, ?_, fun hnone => ?_⟩
  · intro before d after hl _ _
    rw [liveEntries_oneFile] at hl
    have hd : d ∈ [fileEntry 0x54] := hl ▸ List.mem_append_right _ List.mem_cons_self
    obtain rfl := List.mem_singleton.mp hd
    exact ⟨_, padded_fileEntry.firstJoined (isDirectory_fileEntry _) (Or.inr rfl) (List.nil_append _).symm
      fun x hx => absurd hx List.not_mem_nil, rfl, rfl⟩
  · rw [liveEntries_oneFile] at hnone
    exact absurd (namedFile_fileEntry padded_fileEntry) (hnone _ List.mem_cons_self)

/-- `A.TX` does not open the file with this name, for which `A.TX` and a space is put together. -/
theorem not_opensByName : ¬ OpensByName Fat32.quietEnv (oneFileState 0x20)
    (oneFileVolume.rootSlots (oneFileState 0x20)) [0x41, 0x2E, 0x54, 0x58] := by
  intro h
  have hpadded : Padded (fileEntry 0x20) [0x41] [0x54, 0x58] :=
    ⟨by simp, rfl, rfl, by simp, by simp⟩
  have hnamed := namedFile_fileEntry hpadded
  obtain ⟨d', hd', hnamed', hret⟩ := h.found [] (fileEntry 0x20) [] (liveEntries_oneFile _) hnamed
  have hon : oneFileVolume.On (oneFileState 0x20) := rfl
  obtain ⟨es, hes, hr⟩ := hret.exists_listedAs hon rfl (by decide) (by decide)
    Fat32.quietEnv_reliable Fat32.quietEnv_hasMemory
  obtain ⟨m, ⟨⟨-, hjoined⟩, before, after, hsplit, -⟩, -⟩ :=
    (opened_eq_handleOf_iff hnamed'.2.1).mp hr
  -- the array holds the file only
  have hm : m ∈ [fileEntry 0x20] := by
    rw [← hes.unique (listedAs_oneFile 0x20), hsplit]
    exact List.mem_append_right _ List.mem_cons_self
  obtain rfl := List.mem_singleton.mp hm
  rcases hpadded.joinedName_eq_displayed_iff.mp hjoined with h0 | h3
  · cases h0
  · cases h3

end MicroKernel.Fat12
