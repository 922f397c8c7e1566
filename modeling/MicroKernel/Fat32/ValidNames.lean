import MicroKernel.Fat32.ListedOpens
import MicroKernel.Libc.String

set_option autoImplicit false

/-! # Names of the 8.3 form

On names of letters and digits that have room, `convert_to_83_format` loses nothing but the case:
`compare_names` tells them apart, and `format_filename` and the adapter of the virtual file system give
them back in upper case (`validNames_coding`).
-/

namespace MicroKernel.Fat32

open MicroKernel.Lib MicroKernel.Libc Bytes Adapter

/-! ## `format_filename` -/

/-- The loop of `snprintf`, for formats with strings only: `str` is what has been written so far. -/
def snprintfLoop (size : Nat) : List UInt8 → List (List UInt8) → List UInt8 → List UInt8
  | [], _, str => str
  | c :: format, args, str =>
      if size ≤ str.length then str
      else if c = 0x25 then
        match format, args with
        | d :: format, arg :: args =>
            if d = 0x73 then
              snprintfLoop size format args (str ++ (text arg).take (size - str.length))
            else snprintfLoop size format (arg :: args) str
        | _, _ => str
      else snprintfLoop size format args (str ++ [c])

/-- `snprintf`: the cells that are written. -/
def snprintf (size : Nat) (format : List UInt8) (args : List (List UInt8)) : List UInt8 :=
  let str := snprintfLoop size format args []
  if str.length < size then str ++ [0] else str.set (size - 1) 0

/-- The loops of `format_filename` that trim: the blanks from cell `i - 1` down become zeros. -/
def trimBlanks : List UInt8 → Nat → List UInt8
  | cells, 0 => cells
  | cells, i + 1 => if cells.getD i 0 = 0x20 then trimBlanks (cells.set i 0) i else cells

/-- `format_filename`: the string in `output`. -/
def formatFilename (name : Nat → UInt8) : Option (List UInt8) := do
  let filename ← strncpy (List.replicate 9 0) ((List.range 11).map name) 8
  let filename := trimBlanks filename 8
  let extension ← strncpy (List.replicate 4 0) ((List.range 3).map fun i => name (8 + i)) 3
  let extension := trimBlanks extension 3
  if 0 < (← strlen extension) then
    return text (snprintf 13 [0x25, 0x73, 0x2E, 0x25, 0x73] [filename, extension])
  else return text (snprintf 9 [0x25, 0x73] [filename])

/-! ## Valid names -/

/-- A part of a name: letters and digits, at least one and at most `n`. -/
structure Part (n : Nat) where
  chars : List UInt8
  alnum : ∀ c ∈ chars, isalnum c = true
  ne_nil : chars ≠ []
  length_le : chars.length ≤ n

/-- A base, and perhaps an extension. -/
structure ValidName where
  base : Part 8
  extension : Option (Part 3)

namespace ValidName

/-- The characters of the extension. -/
def extensionChars (nm : ValidName) : List UInt8 := (nm.extension.map Part.chars).getD []

/-- The name as a string. -/
def chars (nm : ValidName) : List UInt8 :=
  match nm.extension with
  | none => nm.base.chars
  | some extension => nm.base.chars ++ 0x2E :: extension.chars

/-- The name in upper case. -/
def upper (nm : ValidName) : List UInt8 := nm.chars.map toupper

end ValidName

/-! ## Letters and digits -/

section alnum

variable {l m : List UInt8}

theorem ne_of_isalnum {c d : UInt8} (hc : isalnum c = true) (hd : isalnum d = false) : c ≠ d := by
  rintro rfl
  rw [hc] at hd
  cases hd

theorem isalnum_toupper {c : UInt8} (hc : isalnum c = true) : isalnum (toupper c) = true :=
  isalnum_of_toupper_eq hc (toupper_toupper c)

theorem forall_ne (hl : ∀ c ∈ l, isalnum c = true) {d : UInt8} (hd : isalnum d = false) :
    ∀ c ∈ l, c ≠ d :=
  fun c hc => ne_of_isalnum (hl c hc) hd

theorem isalnum_map (hl : ∀ c ∈ l, isalnum c = true) : ∀ c ∈ l.map toupper, isalnum c = true := by
  intro c hc
  obtain ⟨d, hd, rfl⟩ := List.mem_map.mp hc
  exact isalnum_toupper (hl d hd)

theorem namePart_eq {n : Nat} (hl : ∀ c ∈ l, isalnum c = true) (hn : l.length ≤ n) :
    namePart n l = l.map toupper := by
  unfold namePart
  rw [List.filter_eq_self.mpr hl, List.take_of_length_le (by simpa using hn)]

/-- The characters of a part that is filled up with blanks. -/
theorem range_map_eq {name : Nat → UInt8} {i n : Nat} (hn : l.length ≤ n)
    (h : ∀ k, k < n → name (i + k) = l.getD k 0x20) :
    (List.range n).map (fun k => name (i + k)) = l ++ List.replicate (n - l.length) 0x20 := by
  apply List.ext_getElem
  · simp
    omega
  · intro k hk _
    rw [List.getElem_map, List.getElem_range, h k (by simpa using hk)]
    by_cases hlt : k < l.length
    · rw [List.getD_eq_getElem _ _ hlt, List.getElem_append_left hlt]
    · rw [List.getD_eq_default _ _ (by omega), List.getElem_append_right (by omega),
        List.getElem_replicate]

/-- A part that is filled up with blanks matches the same letters, up to case. -/
theorem partMatches_iff_map {name : Nat → UInt8} {i n : Nat} (hl : ∀ c ∈ l, isalnum c = true)
    (hm : ∀ c ∈ m, isalnum c = true) (hln : l.length ≤ n) (hmn : m.length ≤ n)
    (h : ∀ k, k < n → name (i + k) = (l.map toupper).getD k 0x20) :
    PartMatches name i n m ↔ l.map toupper = m.map toupper := by
  have hin : ∀ k (hk : k < l.length), (l.map toupper).getD k 0x20 = toupper l[k] := by
    intro k hk
    rw [List.getD_eq_getElem _ _ (by simpa using hk), List.getElem_map]
  have hout : ∀ k, l.length ≤ k → (l.map toupper).getD k 0x20 = 0x20 := by
    intro k hk
    exact List.getD_eq_default _ _ (by simpa using hk)
  constructor
  · intro hmatch
    -- where one of the two ends first, a letter meets a blank
    have hlen : l.length = m.length := by
      rcases Nat.lt_trichotomy l.length m.length with hlt | heq | hlt
      · have heq := hmatch.equal l.length (by omega) hlt
        rw [h _ (by omega), hout _ (Nat.le_refl _)] at heq
        have hc := hm _ (mem_getD hlt)
        exact absurd heq.symm (by simpa [show toupper 0x20 = 0x20 by decide] using toupper_ne_space hc)
      · exact heq
      · have hblank := hmatch.blank m.length (by omega) (Nat.le_refl _)
        rw [h _ (by omega), hin _ hlt] at hblank
        exact absurd hblank (toupper_ne_space (hl _ (List.getElem_mem hlt)))
    apply List.ext_getElem (by simpa using hlen)
    intro k hk hk'
    rw [List.length_map] at hk hk'
    have heq := hmatch.equal k (by omega) hk'
    rw [h k (by omega), hin k hk, toupper_toupper, List.getD_eq_getElem _ _ hk'] at heq
    rw [List.getElem_map, List.getElem_map, heq]
  · intro heq
    have hlen : l.length = m.length := by simpa using congrArg List.length heq
    constructor
    · intro k hk hkm
      rw [h k hk, heq, List.getD_eq_getElem _ _ (by simpa using hkm), List.getElem_map,
        toupper_toupper, List.getD_eq_getElem _ _ hkm]
    · intro k hk hkm
      rw [h k hk, hout k (by omega)]

end alnum

/-! ## The four functions -/

namespace ValidName

variable (nm : ValidName)

theorem extensionChars_alnum : ∀ c ∈ nm.extensionChars, isalnum c = true := by
  unfold extensionChars
  cases nm.extension with
  | none => exact fun c hc => absurd hc (by simp)
  | some extension => exact extension.alnum

theorem length_extensionChars_le : nm.extensionChars.length ≤ 3 := by
  unfold extensionChars
  cases nm.extension with
  | none => exact Nat.zero_le 3
  | some extension => exact extension.length_le

theorem chars_eq : nm.chars = nm.base.chars ++
    if nm.extensionChars = [] then [] else 0x2E :: nm.extensionChars := by
  unfold chars extensionChars
  cases nm.extension with
  | none => simp
  | some extension => simp [extension.ne_nil]

theorem upper_eq : nm.upper = nm.base.chars.map toupper ++
    if nm.extensionChars = [] then [] else 0x2E :: nm.extensionChars.map toupper := by
  unfold upper
  rw [chars_eq, List.map_append]
  congr 1
  split
  · rfl
  · rfl

theorem cString_chars : cString nm.chars = nm.chars := by
  unfold cString
  rw [List.takeWhile_eq_self_iff]
  intro c hc
  rw [chars_eq, List.mem_append] at hc
  rw [decide_eq_true_eq]
  rcases hc with hc | hc
  · exact forall_ne nm.base.alnum (by decide) c hc
  · split at hc
    · cases hc
    · rcases List.mem_cons.mp hc with rfl | hc
      · decide
      · exact forall_ne nm.extensionChars_alnum (by decide) c hc

theorem baseOf_chars : baseOf nm.chars = nm.base.chars := by
  have hbase : ∀ c ∈ nm.base.chars, decide (c ≠ 0x2E) = true :=
    fun c hc => decide_eq_true (forall_ne nm.base.alnum (by decide) c hc)
  unfold baseOf
  rw [cString_chars, chars_eq, List.takeWhile_append_of_pos hbase]
  split
  · simp
  · simp

theorem drop_chars : nm.chars.drop (nm.base.chars.length + 1) = nm.extensionChars := by
  rw [chars_eq, ← List.drop_drop, List.drop_left]
  split
  next h => rw [h, List.drop_nil]
  next => rfl

theorem restOf_chars : restOf nm.chars = nm.extensionChars := by
  unfold restOf
  rw [baseOf_chars, if_pos nm.base.length_le, cString_chars, drop_chars]

/-- **`convert_to_83_format`** fills the two parts up with blanks. -/
theorem convert_chars (i : Nat) : convertTo83Format nm.chars i
    = if i < 8 then (nm.base.chars.map toupper).getD i 0x20
      else (nm.extensionChars.map toupper).getD (i - 8) 0x20 := by
  obtain ⟨c, hc⟩ := List.exists_mem_of_ne_nil _ nm.base.ne_nil
  have hmem : c ∈ cString nm.chars := by
    rw [cString_chars, chars_eq]
    exact List.mem_append_left _ hc
  have hdot : c ≠ 0x2E := forall_ne nm.base.alnum (by decide) c hc
  have h1 : cString nm.chars ≠ [0x2E] := by
    intro h
    rw [h] at hmem
    exact hdot (by simpa using hmem)
  have h2 : cString nm.chars ≠ [0x2E, 0x2E] := by
    intro h
    rw [h] at hmem
    exact hdot (by simpa using hmem)
  rw [convertTo83Format_eq h1 h2, baseOf_chars, cString_chars, drop_chars]
  unfold partChar
  rw [namePart_eq nm.base.alnum nm.base.length_le,
    namePart_eq nm.extensionChars_alnum nm.length_extensionChars_le]

/-- Two names are the same in upper case when their parts are. -/
theorem upper_eq_upper_iff (nm' : ValidName) : nm.upper = nm'.upper ↔
    nm.base.chars.map toupper = nm'.base.chars.map toupper ∧
      nm.extensionChars.map toupper = nm'.extensionChars.map toupper := by
  have hsplit : ∀ n : ValidName, n.upper.takeWhile (· ≠ 0x2E) = n.base.chars.map toupper ∧
      n.upper.drop ((n.base.chars.map toupper).length + 1) = n.extensionChars.map toupper := by
    intro n
    have hbase : ∀ c ∈ n.base.chars.map toupper, decide (c ≠ 0x2E) = true :=
      fun c hc => decide_eq_true (forall_ne (isalnum_map n.base.alnum) (by decide) c hc)
    rw [upper_eq, List.takeWhile_append_of_pos hbase, ← List.drop_drop, List.drop_left]
    split
    next h => simp [h]
    next => simp
  constructor
  · intro h
    obtain ⟨hb, he⟩ := hsplit nm
    obtain ⟨hb', he'⟩ := hsplit nm'
    have hbase : nm.base.chars.map toupper = nm'.base.chars.map toupper := by rw [← hb, ← hb', h]
    exact ⟨hbase, by rw [← he, ← he', h, hbase]⟩
  · rintro ⟨hb, he⟩
    have hnil : nm.extensionChars = [] ↔ nm'.extensionChars = [] := by
      rw [← List.map_eq_nil_iff (f := toupper), he, List.map_eq_nil_iff]
    rw [upper_eq, upper_eq, hb, he]
    simp only [hnil]

/-- **`compare_names`** on a converted name. -/
theorem compareNames_convert (nm' : ValidName) :
    compareNames (convertTo83Format nm.chars) nm'.chars = true ↔ nm.upper = nm'.upper := by
  have hbase : PartMatches (convertTo83Format nm.chars) 0 8 nm'.base.chars ↔ _ :=
    partMatches_iff_map nm.base.alnum nm'.base.alnum nm.base.length_le nm'.base.length_le
      fun k hk => by rw [convert_chars, Nat.zero_add, if_pos hk]
  have hext : PartMatches (convertTo83Format nm.chars) 8 3 nm'.extensionChars ↔ _ :=
    partMatches_iff_map nm.extensionChars_alnum nm'.extensionChars_alnum nm.length_extensionChars_le
      nm'.length_extensionChars_le
      fun k _ => by rw [convert_chars, if_neg (by omega), Nat.add_sub_cancel_left]
  rw [compareNames_iff, baseOf_chars, restOf_chars, hbase, hext, upper_eq_upper_iff]
  simp [nm'.length_extensionChars_le]

/-- The cells of a name that has been converted. -/
theorem cells_eq {name : Nat → UInt8} (h : ∀ i, i < 11 → name i = convertTo83Format nm.chars i) :
    (List.range 8).map (fun k => name (0 + k))
        = nm.base.chars.map toupper ++ List.replicate (8 - nm.base.chars.length) 0x20 ∧
      (List.range 3).map (fun k => name (8 + k))
        = nm.extensionChars.map toupper ++ List.replicate (3 - nm.extensionChars.length) 0x20 := by
  constructor
  · rw [range_map_eq (l := nm.base.chars.map toupper) (by simpa using nm.base.length_le),
      List.length_map]
    intro k hk
    rw [h _ (by omega), convert_chars, Nat.zero_add, if_pos hk]
  · rw [range_map_eq (l := nm.extensionChars.map toupper) (by simpa using nm.length_extensionChars_le),
      List.length_map]
    intro k hk
    rw [h _ (by omega), convert_chars, if_neg (by omega), Nat.add_sub_cancel_left]

/-- **`fat32_entry_to_vfs_entry`** on an entry with a converted name. -/
theorem vfsName_convert {x : DirEntry} (h : ∀ i, i < 11 → x.name i = convertTo83Format nm.chars i) :
    vfsName x = nm.upper := by
  have hpart : ∀ l : List UInt8, (∀ c ∈ l, isalnum c = true) → ∀ k,
      (l.map toupper ++ List.replicate k 0x20).takeWhile (· ≠ 0x20) = l.map toupper := by
    intro l hl k
    have hgood : ∀ c ∈ l.map toupper, decide (c ≠ 0x20) = true :=
      fun c hc => decide_eq_true (forall_ne (isalnum_map hl) (by decide) c hc)
    rw [List.takeWhile_append_of_pos hgood, List.takeWhile_replicate]
    simp
  obtain ⟨hbase, hext⟩ := nm.cells_eq h
  rw [vfsName_eq, upper_eq]
  unfold partOf
  rw [hbase, hext, hpart _ nm.base.alnum, hpart _ nm.extensionChars_alnum]
  by_cases hnil : nm.extensionChars = []
  · simp [hnil]
  · rw [if_neg (by simpa using hnil), if_neg hnil]

end ValidName

/-! ## Formatted names -/

section format

variable {l m rest : List UInt8}

/-- The blanks behind a part become zeros. -/
theorem trimBlanks_eq (hl : ∀ c ∈ l, c ≠ 0x20) (k : Nat) (rest : List UInt8) :
    trimBlanks (l ++ (List.replicate k 0x20 ++ rest)) (l.length + k)
      = l ++ (List.replicate k 0 ++ rest) := by
  induction k generalizing rest with
  | zero =>
      rw [Nat.add_zero, List.replicate_zero, List.replicate_zero]
      cases hlen : l.length with
      | zero => rfl
      | succ n =>
          -- the last character of the part is no blank
          have hn : n < l.length := by omega
          have hget : (l ++ ([] ++ rest)).getD n 0 = l[n] := by
            rw [List.getD_append _ _ _ _ hn, List.getD_eq_getElem _ _ hn]
          rw [trimBlanks, hget, if_neg (hl _ (List.getElem_mem hn))]
  | succ k ih =>
      have hcells : l ++ (List.replicate (k + 1) 0x20 ++ rest)
          = (l ++ List.replicate k 0x20) ++ 0x20 :: rest := by
        rw [List.replicate_succ']
        simp
      have hlen : (l ++ List.replicate k (0x20 : UInt8)).length = l.length + k := by simp
      rw [hcells, ← Nat.add_assoc, trimBlanks, ← hlen, List.getD_append_right _ _ _ _ (Nat.le_refl _),
        Nat.sub_self, List.getD_cons_zero, if_pos rfl, List.set_append_right _ _ (Nat.le_refl _),
        Nat.sub_self, List.set_cons_zero, hlen, List.append_assoc, ih, List.replicate_succ']
      simp

theorem padded_eq (k : Nat) : l ++ (List.replicate k 0 ++ [0]) = l ++ 0 :: List.replicate k 0 :=
  congrArg (l ++ ·) (List.replicate_succ'.symm.trans List.replicate_succ)

/-- `"%s"`. -/
theorem snprintf_string {size : Nat} {arg : List UInt8} (harg : text arg = l) (hl : l.length < size) :
    snprintf size [0x25, 0x73] [arg] = l ++ [0] := by
  have hloop : snprintfLoop size [0x25, 0x73] [arg] [] = l := by
    rw [snprintfLoop, if_neg (by simp; omega), if_pos rfl, if_pos rfl, snprintfLoop, harg, List.nil_append, List.take_of_length_le (by simp; omega)]
  unfold snprintf
  rw [hloop]
  exact if_pos hl

/-- `"%s.%s"`. -/
theorem snprintf_strings {size : Nat} {arg arg' : List UInt8} (harg : text arg = l)
    (harg' : text arg' = m) (hsize : l.length + 1 + m.length < size) :
    snprintf size [0x25, 0x73, 0x2E, 0x25, 0x73] [arg, arg'] = (l ++ 0x2E :: m) ++ [0] := by
  have hloop : snprintfLoop size [0x25, 0x73, 0x2E, 0x25, 0x73] [arg, arg'] [] = l ++ 0x2E :: m := by
    rw [snprintfLoop, if_neg (by simp; omega), if_pos rfl, if_pos rfl, harg, List.nil_append,
      List.take_of_length_le (by simp; omega), snprintfLoop, if_neg (by omega), if_neg (by decide),
      snprintfLoop, if_neg (by simp; omega), if_pos rfl, if_pos rfl, snprintfLoop, harg',
      List.take_of_length_le (by simp; omega), List.append_assoc]
    rfl
  unfold snprintf
  rw [hloop]
  exact if_pos (by simp; omega)

/-- A part in an array of its own, with a zero behind it, and trimmed. -/
theorem copied_part {n : Nat} (hl : ∀ c ∈ l, isalnum c = true) (hn : l.length ≤ n) (more : List UInt8) :
    ∃ cells, strncpy (List.replicate (n + 1) 0) (l ++ List.replicate (n - l.length) 0x20 ++ more) n
        = some cells ∧ text (trimBlanks cells n) = l ∧ strlen (trimBlanks cells n) = some l.length := by
  have hzero : (0 : UInt8) ∉ l ++ List.replicate (n - l.length) 0x20 := by
    intro hmem
    rcases List.mem_append.mp hmem with hmem | hmem
    · exact forall_ne hl (by decide) 0 hmem rfl
    · exact absurd (List.eq_of_mem_replicate hmem) (by decide)
  have hlen : (l ++ List.replicate (n - l.length) (0x20 : UInt8)).length = n := by
    simp
    omega
  have hcopy := strncpy_full hzero more (List.replicate (n + 1) 0) (by simp; omega)
  rw [hlen] at hcopy
  have hrest : (List.replicate (n + 1) (0 : UInt8)).drop n = [0] := by
    rw [List.drop_replicate, Nat.add_sub_cancel_left]
    rfl
  rw [hrest, List.append_assoc _ _ [0]] at hcopy
  have htrim := trimBlanks_eq (forall_ne hl (d := 0x20) (by decide)) (n - l.length) [0]
  rw [Nat.add_sub_cancel' hn, padded_eq] at htrim
  have hl0 : 0 ∉ l := fun h => forall_ne hl (by decide) 0 h rfl
  exact ⟨_, hcopy, by rw [htrim, text_eq hl0], by rw [htrim, strlen_eq hl0]⟩

end format

/-- **`format_filename`** on a converted name. -/
theorem ValidName.formatFilename_convert (nm : ValidName) :
    formatFilename (convertTo83Format nm.chars) = some nm.upper := by
  have hcells := @cells_eq nm (convertTo83Format nm.chars) fun _ _ => rfl
  simp only [Nat.zero_add] at hcells
  have hbase := isalnum_map nm.base.alnum
  have hext := isalnum_map nm.extensionChars_alnum
  have hbaseLen : (nm.base.chars.map toupper).length ≤ 8 := by simpa using nm.base.length_le
  have hextLen : (nm.extensionChars.map toupper).length ≤ 3 := by
    simpa using nm.length_extensionChars_le
  have hbaseZero : 0 ∉ nm.base.chars.map toupper := fun h => forall_ne hbase (by decide) 0 h rfl
  have hextZero : 0 ∉ nm.extensionChars.map toupper := fun h => forall_ne hext (by decide) 0 h rfl
  obtain ⟨filename, hcopy, htext, -⟩ := copied_part hbase hbaseLen
    ((List.range 3).map fun k => convertTo83Format nm.chars (8 + k))
  obtain ⟨extension, hcopy', htext', hstrlen⟩ := copied_part hext hextLen []
  rw [List.length_map, ← hcells.1] at hcopy
  rw [List.length_map, ← hcells.2, List.append_nil] at hcopy'
  have hsplit : (List.range 11).map (convertTo83Format nm.chars)
      = (List.range 8).map (fun k => convertTo83Format nm.chars k)
        ++ (List.range 3).map fun k => convertTo83Format nm.chars (8 + k) := rfl
  unfold formatFilename
  rw [hsplit]
  simp only [Option.bind_eq_bind, hcopy, hcopy', hstrlen, Option.bind_some, Option.pure_def]
  by_cases hnil : nm.extensionChars = []
  · rw [if_neg (by simp [hnil]), snprintf_string htext (by omega), text_eq hbaseZero, nm.upper_eq,
      if_pos hnil, List.append_nil]
  · have hzero : 0 ∉ nm.base.chars.map toupper ++ 0x2E :: nm.extensionChars.map toupper := by
      rw [List.mem_append, List.mem_cons]
      rintro (h | h | h)
      · exact hbaseZero h
      · exact absurd h (by decide)
      · exact hextZero h
    have hpos : 0 < (nm.extensionChars.map toupper).length := by
      rw [List.length_map]
      exact List.length_pos_iff.mpr hnil
    rw [if_pos hpos, snprintf_strings htext htext' (by omega), text_eq hzero,
      nm.upper_eq, if_neg hnil]

/-- **The coding of valid names**: two of them match when they are equal up to case, and both functions
that make a string of an entry give the name in upper case. -/
theorem validNames_coding (n1 n2 : ValidName) :
    (compareNames (convertTo83Format n1.chars) n2.chars = true ↔
      n1.chars.map toupper = n2.chars.map toupper) ∧
    formatFilename (convertTo83Format n1.chars) = some (n1.chars.map toupper) ∧
    ∀ x : DirEntry, (∀ i, i < 11 → x.name i = convertTo83Format n1.chars i) →
      (fat32EntryToVfsEntry x).name = n1.chars.map toupper :=
  ⟨n1.compareNames_convert n2, n1.formatFilename_convert, fun _ hx => n1.vfsName_convert hx⟩

end MicroKernel.Fat32
