import MicroKernel.Lib.RecentRing
import MicroKernel.Shell.History

set_option autoImplicit false

/-! # The history as a list

What the history is for: `Remembered` is the list of the commands that were added, without the empty
ones and those that repeat the one before, and the command that is browsed, if there is one. The
ring refines it (`history_refines`): whatever the calls are, they return the same.

The relation between the two, `History.Shows`, holds before and after the ring has gone round; the
command with `k` newer ones is in slot `back 50 index k`.
-/

namespace MicroKernel.Shell

open MicroKernel.Lib RecentRing CArray

/-! ## The list -/

/-- The commands, the newest first, and how many newer ones the browsed command has. -/
structure Remembered where
  log : List (List UInt8)
  position : Option Nat

namespace Remembered

variable (m : Remembered)

/-- The last 50 commands. -/
def commands : List (List UInt8) := m.log.take historySize

/-- No command, and none browsed. -/
def initial : Remembered := ⟨[], none⟩

/-- Add a command. -/
def add (cmd : List UInt8) : Remembered :=
  if cmd = [] ∨ m.log.head? = some cmd then m else ⟨cmd :: m.log, none⟩

/-- Browse to the newest command, or to the one before the browsed one. -/
def prev : Option (List UInt8) × Remembered :=
  let k := match m.position with
    | none => 0
    | some k => k + 1
  match m.commands[k]? with
  | none => (none, m)
  | some cmd => (some cmd, { m with position := some k })

/-- Browse to the command behind the browsed one, or to the empty line. -/
def next : Option (List UInt8) × Remembered :=
  match m.position with
  | none => (none, m)
  | some 0 => (some [], { m with position := none })
  | some (k + 1) => (m.commands[k]?, { m with position := some k })

/-- Stop browsing. -/
def reset : Remembered := { m with position := none }

end Remembered

/-! ## Calls -/

/-- A command of at most 255 characters, as a string in memory. -/
structure CommandString where
  chars : List UInt8
  behind : List UInt8
  noZero : 0 ∉ chars
  length_le : chars.length ≤ 255

/-- The cells that the pointer leads to. -/
def CommandString.cells (cmd : CommandString) : List UInt8 := cmd.chars ++ 0 :: cmd.behind

/-- A call of one of the four functions. -/
inductive HistoryCall
  | add (cmd : CommandString)
  | prev
  | next
  | reset

/-- What a call returns, or `none` for `NULL` and where it returns nothing, and the statics then. -/
def History.call (h : History) : HistoryCall → Option (Option (List UInt8) × History)
  | .add cmd => (h.add cmd.cells).map fun h' => (none, h')
  | .prev => h.getPrev
  | .next => h.getNext
  | .reset => some (none, h.reset)

/-- The same for the list. -/
def Remembered.call (m : Remembered) : HistoryCall → Option (List UInt8) × Remembered
  | .add cmd => (none, m.add cmd.chars)
  | .prev => m.prev
  | .next => m.next
  | .reset => (none, m.reset)

/-- The strings that a sequence of calls returns. -/
def History.calls (h : History) : List HistoryCall → Option (List (Option (List UInt8)))
  | [] => some []
  | c :: cs => do
      let (r, h') ← h.call c
      let rs ← h'.calls cs
      some (r.map Libc.text :: rs)

/-- The same for the list. -/
def Remembered.calls (m : Remembered) : List HistoryCall → List (Option (List UInt8))
  | [] => []
  | c :: cs => (m.call c).1 :: (m.call c).2.calls cs

/-! ## The relation -/

/-- The slot holds the command. -/
def Holds (slot cmd : List UInt8) : Prop := 0 ∉ cmd ∧ ∃ rest, slot = cmd ++ 0 :: rest

theorem Holds.text {slot cmd : List UInt8} (h : Holds slot cmd) : Libc.text slot = cmd := by
  obtain ⟨hzero, rest, rfl⟩ := h
  exact Libc.text_eq hzero

/-- The ring shows the list. -/
structure History.Shows (h : History) (m : Remembered) : Prop where
  valid : h.Valid
  recent : Recent Holds h.buffer h.index m.commands
  count : h.count = m.commands.length
  current : h.current = m.position.map (back historySize h.index)
  position_lt : ∀ k ∈ m.position, k < h.count

section refine

variable {h : History} {m : Remembered}

theorem shows_initial : History.initial.Shows Remembered.initial where
  valid := History.valid_initial
  recent := Recent.nil (by decide)
  count := rfl
  current := rfl
  position_lt := by simp [Remembered.initial]

theorem historySize_pos : 0 < historySize := by decide

/-- The slot of a command. -/
theorem History.Shows.slot (hs : h.Shows m) {k : Nat} {cmd : List UInt8}
    (hk : m.commands[k]? = some cmd) :
    ∃ slot, h.buffer[back historySize h.index k]? = some slot ∧ Holds slot cmd := by
  have hheld := hs.recent.held k cmd hk
  rwa [hs.valid.length] at hheld

theorem History.Shows.lt_count (hs : h.Shows m) {k : Nat} :
    (∃ cmd, m.commands[k]? = some cmd) ↔ k < h.count := by
  rw [hs.count, ← Option.isSome_iff_exists]
  simp

/-- No command has as many newer ones as there are commands. -/
theorem History.Shows.no_command (hs : h.Shows m) {k : Nat} (hk : ¬ k < h.count) :
    m.commands[k]? = none := by
  rw [← Option.not_isSome_iff_eq_none, Option.isSome_iff_exists, hs.lt_count]
  exact hk

/-- Browsing to the command with `k` newer ones. -/
theorem History.Shows.browse (hs : h.Shows m) {k : Nat} (hk : k < h.count) :
    ∃ slot cmd, h.buffer[back historySize h.index k]? = some slot ∧
      m.commands[k]? = some cmd ∧ Libc.text slot = cmd ∧
      ({ h with current := some (back historySize h.index k) } : History).Shows
        { m with position := some k } := by
  obtain ⟨cmd, hcmd⟩ := hs.lt_count.mpr hk
  obtain ⟨slot, hslot, hholds⟩ := hs.slot hcmd
  refine ⟨slot, cmd, hslot, hcmd, hholds.text, ⟨⟨hs.valid.length, hs.valid.slots,
    hs.valid.index_lt, hs.valid.count_le, ?_⟩, hs.recent, hs.count, rfl, ?_⟩⟩
  · rintro c ⟨⟩
    exact back_lt historySize_pos _ _
  · rintro c ⟨⟩
    exact hk

/-- **`history_reset`** stops browsing. -/
theorem History.Shows.reset (hs : h.Shows m) : h.reset.Shows m.reset where
  valid := hs.valid.reset
  recent := hs.recent
  count := hs.count
  current := rfl
  position_lt := by simp [Remembered.reset]

theorem History.Shows.count_le (hs : h.Shows m) : h.count ≤ historySize := hs.valid.count_le

/-- The newest command of the ring is the head of the list. -/
theorem History.Shows.repeatsLast (hs : h.Shows m) (cmd : CommandString) :
    h.repeatsLast cmd.cells = some (decide (m.log.head? = some cmd.chars)) := by
  have hhead : m.log.head? = m.commands[0]? := by
    rw [List.head?_eq_getElem?, Remembered.commands, List.getElem?_take_of_lt historySize_pos]
  unfold History.repeatsLast
  rw [hhead]
  by_cases hcount : 0 < h.count
  · obtain ⟨newest, hnewest⟩ := hs.lt_count.mpr hcount
    obtain ⟨slot, hslot, hzero, rest, rfl⟩ := hs.slot hnewest
    obtain ⟨order, horder, hiff⟩ := Libc.strcmp_eq hzero cmd.noZero rest cmd.behind
    have hlast : h.buffer[h.last]? = some (newest ++ 0 :: rest) := by
      rw [History.last, back_zero, hslot]
    rw [if_pos hcount, hlast, hnewest]
    simp only [Option.bind_eq_bind, Option.bind_some, CommandString.cells, horder, hiff,
      Option.some.injEq]
  · have hnone : m.commands[0]? = none := by
      rw [← Option.not_isSome_iff_eq_none, Option.isSome_iff_exists, hs.lt_count]
      exact hcount
    rw [if_neg hcount, hnone]
    simp

/-- **`history_add`** adds to the list. -/
theorem History.Shows.add (hs : h.Shows m) (cmd : CommandString) :
    ∃ h', h.add cmd.cells = some h' ∧ h'.Shows (m.add cmd.chars) := by
  have hrepeat := hs.repeatsLast cmd
  obtain ⟨chars, behind, hzero, hle⟩ := cmd
  unfold CommandString.cells at hrepeat ⊢
  dsimp only at hrepeat ⊢
  unfold History.add Remembered.add
  cases chars with
  | nil => exact ⟨h, rfl, by rw [if_pos (Or.inl rfl)]; exact hs⟩
  | cons c cs =>
  have hc : c ≠ 0 := by
    rintro rfl
    exact hzero List.mem_cons_self
  have hfirst : read (c :: cs ++ 0 :: behind) 0 = some c :=
    read_at (p := []) (q := cs ++ 0 :: behind) rfl rfl
  rw [hfirst]
  simp only [Option.bind_eq_bind, Option.bind_some, if_neg hc, hrepeat]
  by_cases hhead : m.log.head? = some (c :: cs)
  · refine ⟨h, by simp [hhead], ?_⟩
    rw [if_pos (Or.inr hhead)]
    exact hs
  obtain ⟨slot, hslot, hlength, -⟩ := hs.valid.slot hs.valid.index_lt
  obtain ⟨copied, hcopy, hend⟩ := History.slot_of_strncpy hlength hzero hle behind
  simp only [hhead, decide_false, Bool.false_eq_true, if_false, hslot, Option.bind_some, hcopy, hend]
  have hne : ¬ (c :: cs = [] ∨ False) := by simp
  rw [if_neg hne]
  have hholds : Holds (c :: cs ++ 0 :: List.replicate (255 - (c :: cs).length) 0) (c :: cs) :=
    ⟨hzero, _, rfl⟩
  have hpush := hs.recent.push hholds
  have hcommands : ((c :: cs) :: m.commands).take historySize
      = (Remembered.mk ((c :: cs) :: m.log) none).commands := by
    simp [Remembered.commands, historySize, List.take_take]
  rw [hs.valid.length, hcommands] at hpush
  refine ⟨_, rfl, ⟨⟨?_, ?_, Nat.mod_lt _ historySize_pos, ?_, by simp⟩, hpush, ?_, rfl, by simp⟩⟩
  · simp [hs.valid.length]
  · intro slot' hmem
    rcases List.mem_or_eq_of_mem_set hmem with hmem | rfl
    · exact hs.valid.slots _ hmem
    · refine ⟨?_, c :: cs, _, rfl, hzero⟩
      simp only [List.length_append, List.length_cons, List.length_replicate, historyLineMax] at hle ⊢
      omega
  · have := hs.count_le
    dsimp only
    split <;> omega
  · have hlen : ((c :: cs) :: m.commands).length = h.count + 1 := by rw [hs.count]; rfl
    have := hs.count_le
    rw [← hcommands, List.length_take, hlen]
    dsimp only
    split <;> omega

/-- **`history_get_prev`** browses the list. -/
theorem History.Shows.getPrev (hs : h.Shows m) :
    ∃ r h', h.getPrev = some (r, h') ∧ r.map Libc.text = m.prev.1 ∧ h'.Shows m.prev.2 := by
  have hindex := hs.valid.index_lt
  have hcurrent := hs.current
  have hposition := hs.position_lt
  unfold History.getPrev Remembered.prev
  cases hpos : m.position with
  | none =>
      rw [hpos, Option.map_none] at hcurrent
      by_cases hcount : h.count = 0
      · refine ⟨none, h, by rw [if_pos hcount], ?_⟩
        simp only [hs.no_command (show ¬ 0 < h.count by omega)]
        exact ⟨rfl, hs⟩
      · obtain ⟨slot, cmd, hslot, hcmd, htext, hafter⟩ := hs.browse (k := 0) (by omega)
        refine ⟨some slot, { h with current := some h.last }, ?_, ?_⟩
        · rw [if_neg hcount, hcurrent]
          simp only [History.last, back_zero, hslot, Option.bind_eq_bind, Option.bind_some]
        · simp only [hcmd, Option.map_some, htext, History.last, back_zero, true_and]
          exact hafter
  | some k =>
      have hk : k < h.count := hposition k hpos
      have hle := hs.count_le
      rw [hpos, Option.map_some] at hcurrent
      have holdest : back historySize h.index k = h.oldest ↔ k + 1 = h.count := by
        rw [History.oldest, back_oldest (by omega) hle, back_inj hindex (by omega) (by omega)]
        omega
      by_cases hold : k + 1 = h.count
      · refine ⟨none, h, ?_, ?_⟩
        · rw [if_neg (by omega), hcurrent]
          simp only [holdest.mpr hold, if_true]
        · simp only [hs.no_command (show ¬ k + 1 < h.count by omega)]
          exact ⟨rfl, hs⟩
      · obtain ⟨slot, cmd, hslot, hcmd, htext, hafter⟩ := hs.browse (k := k + 1) (by omega)
        have hprev := back_succ hindex (k := k) (by omega)
        refine ⟨some slot, { h with current := some (back historySize h.index (k + 1)) }, ?_, ?_⟩
        · rw [if_neg (by omega), hcurrent]
          simp only [mt holdest.mp hold, if_false, hprev, hslot, Option.bind_eq_bind, Option.bind_some]
        · simp only [hcmd, Option.map_some, htext, true_and]
          exact hafter

/-- **`history_get_next`** browses the list. -/
theorem History.Shows.getNext (hs : h.Shows m) :
    ∃ r h', h.getNext = some (r, h') ∧ r.map Libc.text = m.next.1 ∧ h'.Shows m.next.2 := by
  have hcurrent := hs.current
  have hposition := hs.position_lt
  unfold History.getNext Remembered.next
  cases hpos : m.position with
  | none =>
      rw [hpos, Option.map_none] at hcurrent
      exact ⟨none, h, by rw [hcurrent], rfl, hs⟩
  | some k =>
      have hk : k < h.count := hposition k hpos
      have hle := hs.count_le
      rw [hpos, Option.map_some] at hcurrent
      have hnewest : back historySize h.index k = h.last ↔ k = 0 := by
        rw [History.last, back_zero, back_inj hs.valid.index_lt (by omega) historySize_pos]
      rw [hcurrent]
      simp only [if_neg (show h.count ≠ 0 by omega)]
      cases k with
      | zero =>
          rw [if_pos (hnewest.mpr rfl)]
          exact ⟨some [0], _, rfl, rfl, hs.reset⟩
      | succ k =>
          obtain ⟨slot, cmd, hslot, hcmd, htext, hafter⟩ := hs.browse (k := k) (by omega)
          have hnext := back_pred hs.valid.index_lt (k := k) (by omega)
          rw [if_neg (mt hnewest.mp (Nat.succ_ne_zero k)), hnext, hslot]
          exact ⟨some slot, _, rfl, by rw [Option.map_some, htext]; exact hcmd.symm, hafter⟩

/-- One call: it returns what the list returns, and the relation holds again. -/
theorem History.Shows.call (hs : h.Shows m) (c : HistoryCall) :
    ∃ r h', h.call c = some (r, h') ∧ r.map Libc.text = (m.call c).1 ∧ h'.Shows (m.call c).2 := by
  cases c with
  | add cmd =>
      obtain ⟨h', hadd, hs'⟩ := hs.add cmd
      exact ⟨none, h', by rw [History.call, hadd, Option.map_some], rfl, hs'⟩
  | prev => exact hs.getPrev
  | next => exact hs.getNext
  | reset => exact ⟨none, h.reset, rfl, rfl, hs.reset⟩

theorem History.Shows.calls (hs : h.Shows m) (cs : List HistoryCall) :
    h.calls cs = some (m.calls cs) := by
  induction cs generalizing h m with
  | nil => rfl
  | cons c cs ih =>
      obtain ⟨r, h', hcall, hr, hs'⟩ := hs.call c
      rw [History.calls, hcall, Remembered.calls, ← hr]
      simp only [Option.bind_eq_bind, Option.bind_some, ih hs']

end refine

/-- **The history refines the list**: from the start, any sequence of calls returns the strings that
the list returns. -/
theorem history_refines (cs : List HistoryCall) :
    History.initial.calls cs = some (Remembered.initial.calls cs) := shows_initial.calls cs

end MicroKernel.Shell
