import MicroKernel.Lib.CArray
import MicroKernel.Libc.String

set_option autoImplicit false

/-! # The command history (`kernel/shell/command.c`)

The ring of the last 50 commands, `history_add` and the two directions of browsing. A slot is the
list of its cells, and an access outside of the ring or of a slot has no result.
-/

namespace MicroKernel.Shell

open MicroKernel.Lib CArray

/-- `HISTORY_SIZE`. -/
def historySize : Nat := 50

/-- `HISTORY_LINE_MAX`. -/
def historyLineMax : Nat := 256

/-- The statics of the history. `current` is `none` for `-1`. -/
structure History where
  buffer : List (List UInt8)
  count : Nat
  index : Nat
  current : Option Nat

namespace History

/-- The empty history. -/
def initial : History where
  buffer := List.replicate historySize (List.replicate historyLineMax 0)
  count := 0
  index := 0
  current := none

/-- The slot of the newest command. -/
def last (h : History) : Nat := (h.index + historySize - 1) % historySize

/-- The slot of the oldest command. -/
def oldest (h : History) : Nat := (h.index + historySize - h.count) % historySize

/-- Whether `history_add` finds the command in the newest slot. -/
def repeatsLast (h : History) (cmd : List UInt8) : Option Bool :=
  if 0 < h.count then do
    let slot ← h.buffer[h.last]?
    let order ← Libc.strcmp slot cmd
    some (order = 0)
  else some false

/-- `history_add`. -/
def add (h : History) (cmd : List UInt8) : Option History := do
  let first ← read cmd 0
  if first = 0 then some h
  else
    let repeated ← h.repeatsLast cmd
    if repeated then some h
    else
      let slot ← h.buffer[h.index]?
      let slot ← Libc.strncpy slot cmd (historyLineMax - 1)
      let slot ← write slot (historyLineMax - 1 : Nat) 0
      some {
        buffer := h.buffer.set h.index slot
        count := if h.count < historySize then h.count + 1 else h.count
        index := (h.index + 1) % historySize
        current := none }

/-- `history_get_prev`: the slot it returns, or `none` for `NULL`. -/
def getPrev (h : History) : Option (Option (List UInt8) × History) :=
  if h.count = 0 then some (none, h)
  else
    match h.current with
    | none => do
        let slot ← h.buffer[h.last]?
        some (some slot, { h with current := some h.last })
    | some current =>
        let prev := (current + historySize - 1) % historySize
        if current = h.oldest then some (none, h)
        else do
          let slot ← h.buffer[prev]?
          some (some slot, { h with current := some prev })

/-- `history_get_next`. Behind the newest command it returns the empty string. -/
def getNext (h : History) : Option (Option (List UInt8) × History) :=
  match h.current with
  | none => some (none, h)
  | some current =>
      if h.count = 0 then some (none, h)
      else if current = h.last then some (some [0], { h with current := none })
      else do
        let next := (current + 1) % historySize
        let slot ← h.buffer[next]?
        some (some slot, { h with current := some next })

/-- `history_reset`. -/
def reset (h : History) : History := { h with current := none }

/-! ## The invariant -/

/-- The cells of a slot: a string of at most 255 characters. -/
def IsSlot (slot : List UInt8) : Prop :=
  slot.length = historyLineMax ∧ ∃ m rest, slot = m ++ 0 :: rest ∧ 0 ∉ m

/-- What holds of the statics after any calls. -/
structure Valid (h : History) : Prop where
  length : h.buffer.length = historySize
  slots : ∀ slot ∈ h.buffer, IsSlot slot
  index_lt : h.index < historySize
  count_le : h.count ≤ historySize
  current_lt : ∀ c ∈ h.current, c < historySize

/-- The newest command is `m`. -/
def Newest (h : History) (m : List UInt8) : Prop :=
  0 < h.count ∧ ∃ rest, h.buffer[h.last]? = some (m ++ 0 :: rest)

/-- A call that browses moves the position, and returns a string or `NULL`. -/
structure Browsed (h : History) (r : Option (List UInt8)) (h' : History) : Prop where
  valid : h'.Valid
  position : h' = { h with current := h'.current }
  str : ∀ str ∈ r, ∃ m rest, str = m ++ 0 :: rest ∧ 0 ∉ m
  null : r = none → h' = h

section rules

variable {h : History}

theorem valid_initial : initial.Valid where
  length := List.length_replicate
  slots := by
    intro slot hslot
    rw [List.eq_of_mem_replicate hslot]
    exact ⟨List.length_replicate, [], List.replicate 255 0, rfl, List.not_mem_nil⟩
  index_lt := by decide
  count_le := by decide
  current_lt := by simp [initial]

theorem last_lt (h : History) : h.last < historySize := Nat.mod_lt _ (by decide)

/-- A slot of the ring can be read. -/
theorem Valid.slot (hv : h.Valid) {i : Nat} (hi : i < historySize) :
    ∃ slot, h.buffer[i]? = some slot ∧ IsSlot slot := by
  have hlt : i < h.buffer.length := by rwa [hv.length]
  exact ⟨h.buffer[i], List.getElem?_eq_getElem hlt, hv.slots _ (List.getElem_mem hlt)⟩

theorem Valid.reset (hv : h.Valid) : h.reset.Valid :=
  ⟨hv.length, hv.slots, hv.index_lt, hv.count_le, by simp [History.reset]⟩

theorem Valid.browsed_null (hv : h.Valid) : h.Browsed none h :=
  ⟨hv, rfl, by simp, fun _ => rfl⟩

/-- Browsing to a slot. -/
theorem Valid.browsed_slot (hv : h.Valid) {c : Nat} (hc : c < historySize) {slot : List UInt8}
    (hslot : IsSlot slot) : h.Browsed (some slot) { h with current := some c } where
  valid := ⟨hv.length, hv.slots, hv.index_lt, hv.count_le, by simpa using hc⟩
  position := rfl
  str := by simpa using hslot.2
  null := by simp

/-- Browsing back to the empty line. -/
theorem Valid.browsed_end (hv : h.Valid) : h.Browsed (some [0]) { h with current := none } where
  valid := hv.reset
  position := rfl
  str := by simpa using ⟨[], ⟨[], rfl⟩, List.not_mem_nil⟩
  null := by simp

/-- What `history_add` leaves in a slot. -/
theorem slot_of_strncpy {slot m : List UInt8} (hslot : slot.length = historyLineMax)
    (hm : 0 ∉ m) (hle : m.length ≤ 255) (rest : List UInt8) :
    ∃ copied, Libc.strncpy slot (m ++ 0 :: rest) (historyLineMax - 1) = some copied ∧
      write copied (historyLineMax - 1 : Nat) 0
        = some (m ++ 0 :: List.replicate (255 - m.length) 0) := by
  obtain ⟨x, hdrop⟩ : ∃ x, slot.drop 255 = [x] := by
    apply List.length_eq_one_iff.mp
    rw [List.length_drop, hslot]
    rfl
  refine ⟨m ++ (List.replicate (255 - m.length) 0 ++ [x]), ?_, ?_⟩
  · show Libc.strncpy slot (m ++ 0 :: rest) 255 = _
    rw [Libc.strncpy_eq hm _ _ (by rw [hslot]; decide), hdrop, List.take_of_length_le hle]
  · calc write (m ++ (List.replicate (255 - m.length) 0 ++ [x])) (historyLineMax - 1 : Nat) 0
        = some (m ++ List.replicate (255 - m.length) 0 ++ [0]) :=
          write_at (x := x) (by simp) (by simp [historyLineMax]; omega) 0
      _ = _ := by rw [List.append_assoc, ← List.replicate_succ', List.replicate_succ]

/-- Whether the command is repeated is known, and then it is the newest one. -/
theorem Valid.repeatsLast (hv : h.Valid) {m : List UInt8} (hm : 0 ∉ m) (rest : List UInt8) :
    ∃ r, h.repeatsLast (m ++ 0 :: rest) = some r ∧ (r = true → h.Newest m) := by
  unfold History.repeatsLast
  by_cases hcount : 0 < h.count
  · obtain ⟨newest, hlast, -, l, rest', rfl, hl⟩ := hv.slot h.last_lt
    obtain ⟨order, horder, hiff⟩ := Libc.strcmp_eq hl hm rest' rest
    refine ⟨decide (order = 0), ?_, fun hzero => ⟨hcount, rest', ?_⟩⟩
    · rw [if_pos hcount, hlast]
      simp only [Option.bind_eq_bind, Option.bind_some, horder]
    · rw [decide_eq_true_iff, hiff] at hzero
      rw [hlast, hzero]
  · exact ⟨false, by simp [hcount], by simp⟩

/-- **`history_add`**: the command is the newest one afterwards. -/
theorem Valid.add (hv : h.Valid) {m : List UInt8} (hm : 0 ∉ m) (hne : m ≠ [])
    (hle : m.length ≤ 255) (rest : List UInt8) :
    ∃ h', h.add (m ++ 0 :: rest) = some h' ∧ h'.Valid ∧ h'.Newest m := by
  obtain ⟨c, hfirst, hc⟩ : ∃ c, read (m ++ 0 :: rest) 0 = some c ∧ c ≠ 0 := by
    cases m with
    | nil => exact absurd rfl hne
    | cons c m =>
        refine ⟨c, read_at (p := []) (q := m ++ 0 :: rest) rfl rfl, ?_⟩
        rintro rfl
        exact hm List.mem_cons_self
  obtain ⟨r, hr, hnew⟩ := hv.repeatsLast hm rest
  obtain ⟨slot, hslot, hlength, -⟩ := hv.slot hv.index_lt
  obtain ⟨copied, hcopy, hend⟩ := slot_of_strncpy hlength hm hle rest
  rw [History.add, hfirst]
  simp only [Option.bind_eq_bind, Option.bind_some, if_neg hc, hr]
  cases r with
  | true => exact ⟨h, rfl, hv, hnew rfl⟩
  | false =>
  simp only [Bool.false_eq_true, if_false, hslot, Option.bind_some, hcopy, hend]
  have hlt : h.index < h.buffer.length := by
    rw [hv.length]
    exact hv.index_lt
  refine ⟨_, rfl, ⟨?_, ?_, ?_, ?_, by simp⟩, ?_, List.replicate (255 - m.length) 0, ?_⟩
  · simp [hv.length]
  · intro slot' hmem
    rcases List.mem_or_eq_of_mem_set hmem with hmem | rfl
    · exact hv.slots _ hmem
    · refine ⟨?_, m, _, rfl, hm⟩
      simp [historyLineMax]
      omega
  · exact Nat.mod_lt _ (by decide)
  · have := hv.count_le
    dsimp only
    split <;> omega
  · dsimp only
    split
    · omega
    · unfold historySize at *
      omega
  · have hindex := hv.index_lt
    have hlast : ((h.index + 1) % historySize + historySize - 1) % historySize = h.index := by
      unfold historySize at *
      omega
    show (h.buffer.set h.index _)[((h.index + 1) % historySize + historySize - 1) % historySize]? = _
    rw [hlast, List.getElem?_set_self hlt]

/-- **`history_get_prev`**, and where it returns `NULL`. The first call returns the newest command. -/
theorem Valid.getPrev (hv : h.Valid) :
    ∃ r h', h.getPrev = some (r, h') ∧ h.Browsed r h' ∧
      (r = none ↔ h.count = 0 ∨ h.current = some h.oldest) ∧
      (0 < h.count → h.current = none → r = h.buffer[h.last]?) := by
  unfold History.getPrev
  by_cases hcount : h.count = 0
  · exact ⟨none, h, by rw [if_pos hcount], hv.browsed_null, by simp [hcount], by omega⟩
  rw [if_neg hcount]
  cases hcur : h.current with
  | none =>
      obtain ⟨slot, hslot, hcells⟩ := hv.slot h.last_lt
      exact ⟨some slot, _, by simp [hslot], hv.browsed_slot h.last_lt hcells, by simp [hcount],
        by simp [hslot]⟩
  | some current =>
      by_cases hold : current = h.oldest
      · exact ⟨none, h, by simp [hold], hv.browsed_null, by simp [hold], by simp⟩
      · have hlt : (current + historySize - 1) % historySize < historySize :=
          Nat.mod_lt _ (by decide)
        obtain ⟨slot, hslot, hcells⟩ := hv.slot hlt
        exact ⟨some slot, _, by simp [hold, hslot], hv.browsed_slot hlt hcells,
          by simp [hcount, hold], by simp⟩

/-- **`history_get_next`**, and where it returns `NULL`. -/
theorem Valid.getNext (hv : h.Valid) :
    ∃ r h', h.getNext = some (r, h') ∧ h.Browsed r h' ∧
      (r = none ↔ h.count = 0 ∨ h.current = none) := by
  unfold History.getNext
  cases hcur : h.current with
  | none => exact ⟨none, h, rfl, hv.browsed_null, by simp⟩
  | some current =>
  by_cases hcount : h.count = 0
  · exact ⟨none, h, by simp [hcount], hv.browsed_null, by simp [hcount]⟩
  by_cases hlast : current = h.last
  · exact ⟨some [0], _, by simp [hcount, hlast], hv.browsed_end, by simp [hcount]⟩
  · have hlt : (current + 1) % historySize < historySize := Nat.mod_lt _ (by decide)
    obtain ⟨slot, hslot, hcells⟩ := hv.slot hlt
    exact ⟨some slot, _, by simp [hcount, hlast, hslot], hv.browsed_slot hlt hcells,
      by simp [hcount]⟩

end rules

end History

end MicroKernel.Shell
