import MicroKernel.Fat32.Mirror
import MicroKernel.Fat32.Search
import MicroKernel.Lib.Walk

set_option autoImplicit false

/-! # Walks along chains that may be cyclic

`find_next_cluster`, `link_cluster_to_chain`, `add_entry_to_directory` and
`remove_entry_from_directory` follow the FAT without counting their steps. Each of them is a walk
along a partial function on cluster numbers (`Fs.searchStep`, `Fs.linkStep`, `Fs.slotStep`), and
the FAT has finitely many answers, so that it returns exactly when the walk does not come back to a
cluster it has been at (`walks_return_iff`).

A cluster outside the volume is not read: the buffer still holds what it held before. That matters
only at the first cluster of a walk, where the buffer is not initialised.
-/

namespace MicroKernel.Fat32

open MicroKernel.Lib Bytes

/-- The program returns. -/
def Returns {α : Type} (m : Io α) (e : Env) (s : Fs) : Prop := ∃ r, m.run e s = some r

theorem returns_bind {α β : Type} {m : Io α} {f : α → Io β} {e : Env} {s s' : Fs} {a : α}
    (h : m.run e s = some (a, s')) : Returns (m >>= f) e s ↔ Returns (f a) e s' := by
  unfold Returns
  rw [Prog.run_bind_of_some e s h]

/-! ## The walks -/

namespace Fs

variable (s : Fs)

/-- The step of `link_cluster_to_chain`. -/
def linkStep (c : Nat) : Option Nat :=
  if s.nextCluster c < eocMin then some (s.nextCluster c) else none

/-- The step of `find_next_cluster`: it stays at a cluster in which it finds the directory or the
end of the entries. -/
def searchStep (dirName : List UInt8) (c : Nat) : Option Nat :=
  match s.findIn dirName c with
  | .more => s.linkStep c
  | _ => none

end Fs

/-- Cluster `c` is read and has a slot that is looked for. -/
def Volume.Hits (V : Volume) (d : Disk) (wanted : DirEntry → Bool) (c : Nat) : Prop :=
  V.Has c ∧ ∃ j, j < V.slots ∧ wanted (V.slot d c j) = true

instance (V : Volume) (d : Disk) (wanted : DirEntry → Bool) (c : Nat) :
    Decidable (V.Hits d wanted c) := inferInstanceAs (Decidable (_ ∧ _))

/-- What `remove_entry_from_directory` looks for. -/
def equals (x y : DirEntry) : Bool := decide (y = x)

/-- The step of `add_entry_to_directory` and `remove_entry_from_directory`: they stay at a cluster
with a slot that they look for, and at a number that is not one of a cluster. -/
def Fs.slotStep (V : Volume) (s : Fs) (wanted : DirEntry → Bool) (c : Nat) : Option Nat :=
  if c < eocMin ∧ ¬ V.Hits s.disk wanted c then some (s.nextCluster c) else none

/-- The buffer that a walk starts with has a slot that is looked for, and the first cluster is not
read. -/
def Volume.HitsJunk (V : Volume) (wanted : DirEntry → Bool) (junk : Bytes) (c : Nat) : Prop :=
  ¬ V.Has c ∧ ∃ j, j < V.slots ∧ wanted (entryAt junk j) = true

/-! ## The numbers that occur -/

/-- The end of a chain is never answered as such: it is the invalid marker then. -/
theorem not_isEndOfClusterChain_nextCluster (s : Fs) (c : Nat) :
    isEndOfClusterChain (s.nextCluster c) = false := by
  unfold isEndOfClusterChain
  rcases nextCluster_cases s c with h | h
  · rw [h]
    decide
  · rw [decide_eq_false (Nat.not_le.mpr h), Bool.false_and]

/-- What the FAT can answer. -/
def answers : Finset Nat := insert invalidCluster (Finset.range eocMin)

theorem nextCluster_mem (s : Fs) (c : Nat) : s.nextCluster c ∈ answers := by
  unfold answers
  rw [Finset.mem_insert, Finset.mem_range]
  exact nextCluster_cases s c

theorem answers_card : answers.card + 1 < steps := by
  have hcard : answers.card ≤ eocMin + 1 := by
    calc answers.card ≤ (Finset.range eocMin).card + 1 := Finset.card_insert_le _ _
      _ = eocMin + 1 := congrArg (· + 1) (Finset.card_range eocMin)
  have hsteps : eocMin + 2 < steps := by norm_num [eocMin, steps]
  omega

theorem answers_card_lt : answers.card < steps := by
  have := answers_card
  omega

/-- The loops are given one step more than a walk of this length needs. -/
theorem exists_steps : ∃ k, steps = k + 1 ∧ answers.card < k := by
  have hlt := answers_card
  obtain ⟨k, hk⟩ := Nat.exists_eq_add_of_lt (Nat.lt_of_le_of_lt (Nat.zero_le _) hlt)
  refine ⟨k, by omega, by omega⟩

theorem linkStep_mem (s : Fs) (b c : Nat) (h : s.linkStep b = some c) : c ∈ answers := by
  unfold Fs.linkStep at h
  split at h
  · rw [← Option.some.inj h]
    exact nextCluster_mem s b
  · cases h

theorem searchStep_mem (s : Fs) (dirName : List UInt8) (b c : Nat)
    (h : s.searchStep dirName b = some c) : c ∈ answers := by
  unfold Fs.searchStep at h
  split at h
  · exact linkStep_mem s b c h
  · cases h

theorem slotStep_mem (V : Volume) (s : Fs) (wanted : DirEntry → Bool) (b c : Nat)
    (h : s.slotStep V wanted b = some c) : c ∈ answers := by
  unfold Fs.slotStep at h
  split at h
  · rw [← Option.some.inj h]
    exact nextCluster_mem s b
  · cases h

section slotStep

variable {V : Volume} {s : Fs} {wanted : DirEntry → Bool} {c : Nat}

theorem slotStep_of_hits (h : V.Hits s.disk wanted c) : s.slotStep V wanted c = none := by
  rw [Fs.slotStep, if_neg fun hn => hn.2 h]

theorem slotStep_of_not_hits (hlt : c < eocMin) (h : ¬ V.Hits s.disk wanted c) :
    s.slotStep V wanted c = some (s.nextCluster c) := by
  rw [Fs.slotStep, if_pos ⟨hlt, h⟩]

theorem slotStep_of_not_lt (h : ¬ c < eocMin) : s.slotStep V wanted c = none := by
  rw [Fs.slotStep, if_neg fun hn => h hn.1]

end slotStep

/-! ## Calls that always return -/

section returns

variable {V : Volume}

theorem writeSectors_returns (e : Env) {s : Fs} (h : s.On V) (first : Nat) (b : Bytes) (n i : Nat) :
    Returns (writeSectors first b n i) e s := by
  induction n generalizing s i with
  | zero => exact ⟨_, rfl⟩
  | succ n ih =>
      unfold Returns
      rw [writeSectors, Prog.run_bind, Prog.run_get, Option.bind_some]
      dsimp only
      rw [Prog.run_bind, run_writeVerified e h, Option.bind_some]
      have hon : Fs.On (if e.loses (.store i) then s else s.withDisk (Function.update s.disk
          (u32 (first + i) % 2 ^ 28) (Sector.ofBytes b (s.bootSector.bytesPerSector * i)))) V := by
        split
        · exact h
        · exact h.withDisk _
      cases !e.fails (.store i) && !e.fails (.verify i) with
      | true => exact ih hon (i + 1)
      | false => exact ⟨_, rfl⟩

theorem writeCluster_returns (e : Env) {s : Fs} (h : s.On V) (c : Nat) (b : Bytes) :
    Returns (writeCluster c b) e s := by
  unfold Returns writeCluster
  rw [Prog.run_bind, Prog.run_get, Option.bind_some]
  exact writeSectors_returns e h _ b _ _

theorem markClusterInFat_returns (e : Env) {s : Fs} (h : s.On V) (c v : Nat) :
    Returns (markClusterInFat c v) e s := by
  by_cases hc : V.Has c
  · exact ⟨_, run_markClusterInFat e h hc v⟩
  · exact ⟨_, run_markClusterInFat_of_not_has e h hc v⟩

/-- What a call of `read_cluster` leaves in the buffer. -/
theorem readCluster_returns (e : Env) {s : Fs} (h : s.On V) {c : Nat} (hlt : c < eocMin)
    (b : Bytes) :
    ∃ b', (readCluster c b).run e s = some (b', s) ∧ (e.Reliable → ∀ j, j < V.slots →
      entryAt b' j = if V.Has c then V.slot s.disk c j else entryAt b j) := by
  by_cases hc : V.Has c
  · refine ⟨_, run_readCluster e h hc b, fun he j hj => ?_⟩
    rw [if_pos hc, entryAt_loaded _ _ _ hj (he.allLoaded _ _)]
  · refine ⟨b, run_readCluster_of_not_has e h hlt hc b, fun _ j _ => ?_⟩
    rw [if_neg hc]

end returns

/-! ## The loops -/

section loops

variable {V : Volume} {s : Fs} {e : Env}

theorem lastOfChain_returns_iff (he : e.Reliable) (h : s.On V) (k i c : Nat) :
    (∃ v, (lastOfChain k i c).run e s = some (v, s)) ↔ walk s.linkStep k c = none := by
  induction k generalizing i c with
  | zero => simp [lastOfChain, walk]
  | succ k ih =>
      rw [lastOfChain, Prog.run_bind, run_within,
        run_getNextClusterInChain_any (he.enter (.cluster i)) h, Option.bind_some, Prog.run_ite,
        walk, Fs.linkStep]
      split
      · rw [ih, Option.bind_some]
      · simp

theorem searchFrom_isSome_iff (dirName : List UInt8) (k c : Nat) :
    (s.searchFrom dirName k c).isSome = true ↔ walk (s.searchStep dirName) k c = none := by
  induction k generalizing c with
  | zero => simp [Fs.searchFrom, walk]
  | succ k ih =>
      rw [Fs.searchFrom, walk, Fs.searchStep]
      cases s.findIn dirName c with
      | found x => simp
      | ended => simp
      | more =>
          dsimp only
          rw [Fs.linkStep]
          split
          · rw [ih, Option.bind_some]
          · simp

/-- Nothing in the buffer is looked for, or the next cluster is read. -/
def Volume.Clean (V : Volume) (wanted : DirEntry → Bool) (b : Bytes) (c : Nat) : Prop :=
  V.Has c ∨ ∀ j, j < V.slots → wanted (entryAt b j) = false

/-- A cluster without a slot that is looked for leaves a buffer without one. -/
theorem Volume.Clean.not_wanted {wanted : DirEntry → Bool} {b b' : Bytes} {c : Nat}
    (hclean : V.Clean wanted b c) (hmiss : ¬ V.Hits s.disk wanted c)
    (hb : ∀ j, j < V.slots → entryAt b' j = if V.Has c then V.slot s.disk c j else entryAt b j) :
    ∀ j, j < V.slots → wanted (entryAt b' j) = false := by
  intro j hj
  rw [hb j hj]
  split
  next hc =>
    rw [← Bool.not_eq_true]
    exact fun hw => hmiss ⟨hc, j, hj, hw⟩
  next hc =>
    rcases hclean with hc' | hclean
    · exact absurd hc' hc
    · exact hclean j hj

/-- The slot that is looked for in the buffer, found or not, decides what the walk does. -/
theorem Volume.Clean.hits {wanted : DirEntry → Bool} {b b' : Bytes} {c j : Nat}
    (hclean : V.Clean wanted b c)
    (hb : ∀ j, j < V.slots → entryAt b' j = if V.Has c then V.slot s.disk c j else entryAt b j)
    (hj : j < V.slots) (hw : wanted (entryAt b' j) = true) : V.Hits s.disk wanted c := by
  by_contra hmiss
  rw [hclean.not_wanted hmiss hb j hj] at hw
  cases hw

theorem Volume.not_hits {wanted : DirEntry → Bool} {b b' : Bytes} {c : Nat}
    (hb : ∀ j, j < V.slots → entryAt b' j = if V.Has c then V.slot s.disk c j else entryAt b j)
    (hnone : ∀ j, j < V.slots → wanted (entryAt b' j) = false) : ¬ V.Hits s.disk wanted c := by
  rintro ⟨hc, j, hj, hw⟩
  have hj' := hnone j hj
  rw [hb j hj, if_pos hc, hw] at hj'
  cases hj'

theorem removeEntryLoop_returns_iff (he : e.Reliable) (h : s.On V) (x : DirEntry) {k i c : Nat}
    {b : Bytes} (hclean : V.Clean (equals x) b c) :
    Returns (removeEntryLoop x k i c b) e s
      ↔ walk (s.slotStep V (equals x)) k c = none := by
  induction k generalizing i c b with
  | zero => simp [Returns, removeEntryLoop, walk]
  | succ k ih =>
      rw [walk]
      unfold Returns
      rw [removeEntryLoop, Prog.run_ite]
      by_cases hlt : c < eocMin
      · rw [if_neg (not_not.mpr hlt)]
        obtain ⟨b', hread, hb⟩ := readCluster_returns (e.enter (.cluster i)) h hlt b
        have hb := hb (he.enter _)
        rw [Prog.run_bind, run_within, hread, Option.bind_some, Prog.run_bind, Prog.run_get,
          Option.bind_some]
        dsimp only
        rw [getEntriesPerCluster_eq h]
        cases hs : slotOf x b' V.slots with
        | some j =>
            unfold slotOf at hs
            rw [List.find?_range_eq_some] at hs
            have hhit := hclean.hits hb (List.mem_range.mp hs.2.1) hs.1
            obtain ⟨r, hr⟩ := writeCluster_returns ((e.enter (.cluster i)).enter .write) h c
              (setEntry b' j zeroEntry)
            rw [slotStep_of_hits hhit, Option.bind_none]
            simp only [Prog.run_bind, run_within, hr, Option.bind_some, Prog.run_pure]
            simp
        | none =>
            unfold slotOf at hs
            rw [List.find?_range_eq_none] at hs
            have hclean' : ∀ j, j < V.slots → equals x (entryAt b' j) = false := by
              intro j hj
              simpa [equals] using hs j hj
            rw [slotStep_of_not_hits hlt (Volume.not_hits hb hclean'), Option.bind_some]
            simp only [Prog.run_bind, run_within,
              run_getNextClusterInChain_any ((he.enter (.cluster i)).enter .next) h,
              Option.bind_some]
            exact ih (Or.inr hclean')
      · rw [if_pos hlt, slotStep_of_not_lt hlt, Option.bind_none]
        simp

theorem addEntryLoop_returns_iff (he : e.Reliable) (h : s.On V) (x : DirEntry) {parent k i c : Nat}
    {b : Bytes} (hclean : V.Clean DirEntry.isFree b c) :
    Returns (addEntryLoop x parent k i false c b) e s
      ↔ walk (s.slotStep V DirEntry.isFree) k c = none := by
  induction k generalizing i c b with
  | zero => simp [Returns, addEntryLoop, walk]
  | succ k ih =>
      rw [walk]
      unfold Returns
      rw [addEntryLoop, Prog.run_ite]
      by_cases hlt : c < eocMin
      · rw [if_neg (not_not.mpr hlt)]
        obtain ⟨b', hread, hb⟩ := readCluster_returns (e.enter (.cluster i)) h hlt b
        have hb := hb (he.enter _)
        rw [Prog.run_bind, run_within, hread, Option.bind_some, Prog.run_bind, Prog.run_get,
          Option.bind_some]
        dsimp only
        rw [getEntriesPerCluster_eq h]
        cases hs : freeSlot b' V.slots with
        | some j =>
            rw [freeSlot_eq_some_iff] at hs
            have hhit := hclean.hits hb hs.1 hs.2.1
            obtain ⟨r, hr⟩ := writeCluster_returns ((e.enter (.cluster i)).enter .write) h c
              (setEntry b' j x)
            rw [slotStep_of_hits hhit, Option.bind_none]
            simp only [Prog.run_bind, run_within, hr, Option.bind_some, Prog.run_pure]
            simp
        | none =>
            rw [freeSlot_eq_none] at hs
            rw [slotStep_of_not_hits hlt (Volume.not_hits hb hs), Option.bind_some]
            simp only [Bool.false_eq_true, if_false, Prog.run_bind, run_within,
              run_getNextClusterInChain_any ((he.enter (.cluster i)).enter .next) h,
              Option.bind_some, not_isEndOfClusterChain_nextCluster]
            exact ih (Or.inr hs)
      · rw [if_pos hlt, slotStep_of_not_lt hlt, Option.bind_none]
        simp

/-! ### Buffers that are not initialised -/

/-- The walk finds what it looks for in the buffer it starts with. -/
theorem removeEntryLoop_returns_junk (h : s.On V) (x : DirEntry) {k i c : Nat} {b : Bytes}
    (hj : V.HitsJunk (equals x) b c) : Returns (removeEntryLoop x (k + 1) i c b) e s := by
  unfold Returns
  rw [removeEntryLoop, Prog.run_ite]
  by_cases hlt : c < eocMin
  · obtain ⟨hc, j, hjlt, hw⟩ := hj
    rw [if_neg (not_not.mpr hlt), Prog.run_bind, run_within,
      run_readCluster_of_not_has _ h hlt hc, Option.bind_some, Prog.run_bind, Prog.run_get,
      Option.bind_some]
    dsimp only
    rw [getEntriesPerCluster_eq h]
    cases hs : slotOf x b V.slots with
    | some j =>
        obtain ⟨r, hr⟩ := writeCluster_returns ((e.enter (.cluster i)).enter .write) h c
          (setEntry b j zeroEntry)
        simp only [Prog.run_bind, run_within, hr, Option.bind_some, Prog.run_pure]
        exact ⟨_, rfl⟩
    | none =>
        unfold slotOf at hs
        rw [List.find?_range_eq_none] at hs
        have := hs j hjlt
        rw [equals, decide_eq_true_eq] at hw
        simp [hw] at this
  · rw [if_pos hlt]
    exact ⟨_, rfl⟩

theorem addEntryLoop_returns_junk (h : s.On V) (x : DirEntry) {parent k i c : Nat} {b : Bytes}
    (hj : V.HitsJunk DirEntry.isFree b c) :
    Returns (addEntryLoop x parent (k + 1) i false c b) e s := by
  unfold Returns
  rw [addEntryLoop, Prog.run_ite]
  by_cases hlt : c < eocMin
  · obtain ⟨hc, j, hjlt, hw⟩ := hj
    rw [if_neg (not_not.mpr hlt), Prog.run_bind, run_within,
      run_readCluster_of_not_has _ h hlt hc, Option.bind_some, Prog.run_bind, Prog.run_get,
      Option.bind_some]
    dsimp only
    rw [getEntriesPerCluster_eq h]
    cases hs : freeSlot b V.slots with
    | some j =>
        obtain ⟨r, hr⟩ := writeCluster_returns ((e.enter (.cluster i)).enter .write) h c
          (setEntry b j x)
        simp only [Prog.run_bind, run_within, hr, Option.bind_some, Prog.run_pure]
        exact ⟨_, rfl⟩
    | none =>
        rw [freeSlot_eq_none.mp hs j hjlt] at hw
        cases hw
  · rw [if_pos hlt]
    exact ⟨_, rfl⟩

/-! ### Walks along a FAT without cycles

They return in every environment: a read that fails can only end a walk earlier, or lead past a slot
to the rest of the chain. -/

theorem scanSectors_returns (e : Env) (s : Fs) (dirName : List UInt8) (sector n i : Nat)
    (b : Bytes) : ∃ r, (scanSectors dirName sector n i b).run e s = some (r, s) := by
  induction n generalizing i b with
  | zero => exact ⟨_, rfl⟩
  | succ n ih =>
      rw [scanSectors, Prog.run_bind, run_readSector, Option.bind_some]
      cases e.fails (.load i) with
      | true => exact ⟨_, rfl⟩
      | false =>
          simp only [Bool.false_eq_true, if_false, Bool.not_true]
          split
          · exact ih (i + 1) _
          · exact ⟨_, rfl⟩

/-- The walk stops here, or its rest is a walk along the FAT that stops. -/
theorem walk_linkStep_succ {k c : Nat} (hw : walk s.linkStep (k + 1) c = none) :
    ¬ s.nextCluster c < eocMin ∨ walk s.linkStep k (s.nextCluster c) = none := by
  rw [walk, Fs.linkStep] at hw
  split at hw
  · exact Or.inr hw
  next hlt => exact Or.inl hlt

theorem lastOfChain_returns (h : s.On V) {k i c : Nat} (hw : walk s.linkStep k c = none) :
    ∃ v, (lastOfChain k i c).run e s = some (v, s) := by
  induction k generalizing i c with
  | zero => cases hw
  | succ k ih =>
      rw [lastOfChain, Prog.run_bind, run_within, run_getNextClusterInChain_at _ h,
        Option.bind_some, Prog.run_ite]
      cases (e.enter (.cluster i)).fails .fat with
      | true => exact ⟨c, rfl⟩
      | false =>
          simp only [Bool.false_eq_true, if_false]
          split
          next hlt => exact ih ((walk_linkStep_succ hw).resolve_left (not_not.mpr hlt))
          next => exact ⟨c, rfl⟩

theorem findNextLoop_returns (h : s.On V) (dirName : List UInt8) {k i c : Nat} (b : Bytes)
    (hw : walk s.linkStep k c = none) : Returns (findNextLoop dirName k i c b) e s := by
  induction k generalizing i c b with
  | zero => cases hw
  | succ k ih =>
      obtain ⟨⟨r, b'⟩, hscan⟩ := scanSectors_returns (e.enter (.cluster i)) s dirName
        (s.clusterToSector c) s.bootSector.sectorsPerCluster 0 b
      unfold Returns
      rw [findNextLoop, Prog.run_bind, Prog.run_get, Option.bind_some]
      dsimp only
      rw [Prog.run_bind, run_within, hscan, Option.bind_some]
      cases r with
      | found x => exact ⟨_, rfl⟩
      | ended => exact ⟨_, rfl⟩
      | more =>
          simp only [Prog.run_bind, run_within, run_getNextClusterInChain_at _ h,
            Option.bind_some, Prog.run_ite]
          cases ((e.enter (.cluster i)).enter .next).fails .fat with
          | true => exact ⟨_, rfl⟩
          | false =>
              simp only [Bool.false_eq_true, if_false]
              split
              next hlt => exact ih b' ((walk_linkStep_succ hw).resolve_left (not_not.mpr hlt))
              next => exact ⟨_, rfl⟩

theorem removeEntryLoop_returns (h : s.On V) (x : DirEntry) {k i c : Nat} (b : Bytes)
    (hw : walk s.linkStep k c = none) : Returns (removeEntryLoop x (k + 1) i c b) e s := by
  induction k generalizing i c b with
  | zero => cases hw
  | succ k ih =>
      -- the invalid marker ends the loop in its next round
      have hgiveUp : ∀ b', Returns (removeEntryLoop x (k + 1) (i + 1) invalidCluster b') e s := by
        intro b'
        unfold Returns
        rw [removeEntryLoop, Prog.run_ite, if_pos (by decide)]
        exact ⟨_, rfl⟩
      unfold Returns
      rw [removeEntryLoop, Prog.run_ite]
      by_cases hlt : c < eocMin
      · rw [if_neg (not_not.mpr hlt)]
        obtain ⟨b', hread, -⟩ := readCluster_returns (e.enter (.cluster i)) h hlt b
        rw [Prog.run_bind, run_within, hread, Option.bind_some, Prog.run_bind, Prog.run_get,
          Option.bind_some]
        dsimp only
        cases slotOf x b' s.bootSector.getEntriesPerCluster with
        | some j =>
            obtain ⟨r, hr⟩ := writeCluster_returns ((e.enter (.cluster i)).enter .write) h c
              (setEntry b' j zeroEntry)
            simp only [Prog.run_bind, run_within, hr, Option.bind_some, Prog.run_pure]
            exact ⟨_, rfl⟩
        | none =>
            simp only [Prog.run_bind, run_within, run_getNextClusterInChain_at _ h,
              Option.bind_some]
            cases ((e.enter (.cluster i)).enter .next).fails .fat with
            | true => exact hgiveUp b'
            | false =>
                rw [if_neg (by decide)]
                rcases nextCluster_cases s c with hn | hn
                · rw [hn]
                  exact hgiveUp b'
                · exact ih b' ((walk_linkStep_succ hw).resolve_left (not_not.mpr hn))
      · rw [if_pos hlt]
        exact ⟨_, rfl⟩

theorem addEntryLoop_returns (h : s.On V) (x : DirEntry) {parent k i c : Nat} (b : Bytes)
    (hw : walk s.linkStep k c = none) :
    Returns (addEntryLoop x parent (k + 1) i false c b) e s := by
  induction k generalizing i c b with
  | zero => cases hw
  | succ k ih =>
      have hgiveUp : ∀ b',
          Returns (addEntryLoop x parent (k + 1) (i + 1) false invalidCluster b') e s := by
        intro b'
        unfold Returns
        rw [addEntryLoop, Prog.run_ite, if_pos (by decide)]
        exact ⟨_, rfl⟩
      unfold Returns
      rw [addEntryLoop, Prog.run_ite]
      by_cases hlt : c < eocMin
      · rw [if_neg (not_not.mpr hlt)]
        obtain ⟨b', hread, -⟩ := readCluster_returns (e.enter (.cluster i)) h hlt b
        rw [Prog.run_bind, run_within, hread, Option.bind_some, Prog.run_bind, Prog.run_get,
          Option.bind_some]
        dsimp only
        cases freeSlot b' s.bootSector.getEntriesPerCluster with
        | some j =>
            obtain ⟨r, hr⟩ := writeCluster_returns ((e.enter (.cluster i)).enter .write) h c
              (setEntry b' j x)
            simp only [Prog.run_bind, run_within, hr, Option.bind_some, Prog.run_pure]
            exact ⟨_, rfl⟩
        | none =>
            simp only [Bool.false_eq_true, if_false, Prog.run_bind, run_within,
              run_getNextClusterInChain_at _ h, Option.bind_some]
            cases ((e.enter (.cluster i)).enter .next).fails .fat with
            | true =>
                rw [if_pos rfl, if_neg (by decide)]
                exact hgiveUp b'
            | false =>
                simp only [Bool.false_eq_true, if_false, not_isEndOfClusterChain_nextCluster]
                rcases nextCluster_cases s c with hn | hn
                · rw [hn]
                  exact hgiveUp b'
                · exact ih b' ((walk_linkStep_succ hw).resolve_left (not_not.mpr hn))
      · rw [if_pos hlt]
        exact ⟨_, rfl⟩

end loops

/-! ## The functions -/

section functions

variable {V : Volume} {s : Fs} {e : Env}

theorem findNextCluster_returns_iff (he : e.Reliable) (h : s.On V) (dirName : List UInt8)
    (c : Nat) : Returns (findNextCluster dirName c) e s ↔ ¬ Repeats (s.searchStep dirName) c := by
  rw [← stops_iff_not_repeats answers (searchStep_mem s dirName) answers_card_lt, ← searchFrom_isSome_iff]
  unfold Returns
  rw [run_findNextCluster he h]
  cases s.searchFrom dirName steps c with
  | none => simp
  | some v => simp

theorem linkClusterToChain_returns_iff (he : e.Reliable) (h : s.On V) (parentCluster newCluster : Nat) :
    Returns (linkClusterToChain parentCluster newCluster) e s
      ↔ ¬ Repeats s.linkStep parentCluster := by
  rw [← stops_iff_not_repeats answers (linkStep_mem s) answers_card_lt,
    ← lastOfChain_returns_iff he h steps 0]
  unfold linkClusterToChain
  constructor
  · rintro ⟨⟨b, s'⟩, hr⟩
    obtain ⟨v, s₁, hv, -⟩ := (Prog.run_bind_eq_some e s).mp hr
    exact ⟨v, by rw [hv, lastOfChain_state e hv]⟩
  · rintro ⟨v, hv⟩
    rw [returns_bind hv]
    exact markClusterInFat_returns (e.enter .mark) h v newCluster

/-- A walk that looks for a slot, from its first cluster on. -/
theorem returns_slotWalk_iff {wanted : DirEntry → Bool} {junk : Bytes} {c : Nat} {m : Io Bool}
    (hjunk : V.HitsJunk wanted junk c → Returns m e s)
    (hclean : V.Clean wanted junk c → (Returns m e s ↔ walk (s.slotStep V wanted) steps c = none)) :
    Returns m e s ↔ V.HitsJunk wanted junk c ∨ ¬ Repeats (s.slotStep V wanted) c := by
  rw [← stops_iff_not_repeats answers (slotStep_mem V s wanted) answers_card_lt]
  by_cases hj : V.HitsJunk wanted junk c
  · exact ⟨fun _ => Or.inl hj, fun _ => hjunk hj⟩
  · have hc : V.Clean wanted junk c := by
      by_cases hc : V.Has c
      · exact Or.inl hc
      · right
        intro j hlt
        rw [← Bool.not_eq_true]
        exact fun hw => hj ⟨hc, j, hlt, hw⟩
    rw [hclean hc]
    exact ⟨Or.inr, fun h => h.resolve_left hj⟩

theorem addEntryToDirectory_returns_iff (he : e.Reliable) (h : s.On V) (parentCluster : Nat)
    (dirname : List UInt8) (newDirCluster : Nat) (attributes : UInt8) :
    Returns (addEntryToDirectory parentCluster dirname newDirCluster attributes) e s
      ↔ V.HitsJunk DirEntry.isFree (e.junk (.insert :: e.path)) parentCluster ∨
        ¬ Repeats (s.slotStep V DirEntry.isFree) parentCluster := by
  obtain ⟨k, hk, -⟩ := exists_steps
  unfold addEntryToDirectory
  rw [returns_bind (run_createDirectoryEntry dirname newDirCluster attributes),
    returns_bind (run_uninitialised e s .insert), hk]
  apply returns_slotWalk_iff
  · exact fun hj => addEntryLoop_returns_junk h _ hj
  · intro hc
    rw [hk]
    exact addEntryLoop_returns_iff he h _ hc

theorem removeEntryFromDirectory_returns_iff (he : e.Reliable) (h : s.On V) (parentCluster : Nat)
    (x : DirEntry) :
    Returns (removeEntryFromDirectory parentCluster x) e s
      ↔ V.HitsJunk (equals x) (e.junk (.remove :: e.path)) parentCluster ∨
        ¬ Repeats (s.slotStep V (equals x)) parentCluster := by
  obtain ⟨k, hk, -⟩ := exists_steps
  unfold removeEntryFromDirectory
  rw [returns_bind (run_uninitialised e s .remove), hk]
  apply returns_slotWalk_iff
  · exact fun hj => removeEntryLoop_returns_junk h _ hj
  · intro hc
    rw [hk]
    exact removeEntryLoop_returns_iff he h _ hc

/-- **Chain walks on any FAT.** Without a failing read, each of the four functions returns exactly
when its walk does not come back to a cluster before it stops; the two that look for a slot also
return when the first cluster is outside the volume and the buffer, which they then do not read
into, happens to hold one. Where the FAT alone leads back to no cluster, all four return whatever
fails. -/
theorem walks_return_iff (h : s.On V) (c : Nat) :
    (e.Reliable →
      (∀ dirName, Returns (findNextCluster dirName c) e s ↔ ¬ Repeats (s.searchStep dirName) c) ∧
      (∀ newCluster, Returns (linkClusterToChain c newCluster) e s ↔ ¬ Repeats s.linkStep c) ∧
      (∀ dirname newDirCluster attributes,
        Returns (addEntryToDirectory c dirname newDirCluster attributes) e s
          ↔ V.HitsJunk DirEntry.isFree (e.junk (.insert :: e.path)) c ∨
            ¬ Repeats (s.slotStep V DirEntry.isFree) c) ∧
      ∀ x, Returns (removeEntryFromDirectory c x) e s
        ↔ V.HitsJunk (equals x) (e.junk (.remove :: e.path)) c ∨
          ¬ Repeats (s.slotStep V (equals x)) c) ∧
    (¬ Repeats s.linkStep c →
      (∀ dirName, Returns (findNextCluster dirName c) e s) ∧
      (∀ newCluster, Returns (linkClusterToChain c newCluster) e s) ∧
      (∀ dirname newDirCluster attributes,
        Returns (addEntryToDirectory c dirname newDirCluster attributes) e s) ∧
      ∀ x, Returns (removeEntryFromDirectory c x) e s) := by
  constructor
  · intro he
    exact ⟨fun dirName => findNextCluster_returns_iff he h dirName c,
      fun newCluster => linkClusterToChain_returns_iff he h c newCluster,
      fun dirname newDirCluster attributes =>
        addEntryToDirectory_returns_iff he h c dirname newDirCluster attributes,
      fun x => removeEntryFromDirectory_returns_iff he h c x⟩
  · intro hw
    obtain ⟨k, hk, hcard⟩ := exists_steps
    -- a walk over finitely many clusters that repeats none stops within the bound
    have hstop : walk s.linkStep k c = none :=
      (stops_iff_not_repeats answers (linkStep_mem s) hcard).mpr hw
    have hmore : walk s.linkStep (k + 1) c = none := walk_eq_none_of_le hstop (Nat.le_succ k)
    refine ⟨?_, ?_, ?_, ?_⟩
    · intro dirName
      unfold findNextCluster
      rw [returns_bind (run_uninitialised e s (.load 0)), hk]
      exact findNextLoop_returns h dirName _ hmore
    · intro newCluster
      obtain ⟨v, hv⟩ := lastOfChain_returns (e := e) (i := 0) h hmore
      unfold linkClusterToChain
      rw [hk, returns_bind hv]
      exact markClusterInFat_returns (e.enter .mark) h v newCluster
    · intro dirname newDirCluster attributes
      unfold addEntryToDirectory
      rw [returns_bind (run_createDirectoryEntry dirname newDirCluster attributes),
        returns_bind (run_uninitialised e s .insert), hk]
      exact addEntryLoop_returns h _ _ hstop
    · intro x
      unfold removeEntryFromDirectory
      rw [returns_bind (run_uninitialised e s .remove), hk]
      exact removeEntryLoop_returns h x _ hstop

end functions

/-! ## A directory whose chain leads back to itself -/

/-- The small volume with a root directory of deleted entries that is its own next cluster. -/
def loopFs : Fs :=
  smallFs (fun c => if c = 2 then 2 else 0) (fun _ _ _ => 0xE5) (fun _ => 0)

/-- Looking for a directory in it, or for the end of its chain, takes forever. -/
theorem loopFs_not_returns :
    ¬ Returns (findNextCluster [0x41] 2) quietEnv loopFs ∧
      ¬ Returns (linkClusterToChain 2 3) quietEnv loopFs := by
  have hon : loopFs.On smallVolume := (smallFs_ready _ _ _).on
  have hnext : loopFs.linkStep 2 = some 2 := by decide
  have hmore : loopFs.searchStep [0x41] 2 = some 2 := by decide
  rw [findNextCluster_returns_iff quietEnv_reliable hon,
    linkClusterToChain_returns_iff quietEnv_reliable hon, not_not, not_not]
  constructor
  · exact ⟨0, 1, 2, by decide, rfl, by simp [walk, hmore]⟩
  · exact ⟨0, 1, 2, by decide, rfl, by simp [walk, hnext]⟩

/-- The small volume with a root directory of two clusters, one after the other. -/
def twoClustersFs : Fs :=
  smallFs (fun c => if c = 2 then 3 else if c = 3 then eocMax else 0) (fun _ _ _ => 0xE5)
    (fun _ => 0)

theorem walks_return_twoClusters :
    Returns (findNextCluster [0x41] 2) quietEnv twoClustersFs ∧
      Returns (linkClusterToChain 2 4) quietEnv twoClustersFs := by
  have hon : twoClustersFs.On smallVolume := (smallFs_ready _ _ _).on
  have hstop : walk twoClustersFs.linkStep 2 2 = none := by decide
  have hall := (walks_return_iff (e := quietEnv) hon 2).2 (not_repeats_of_walk_eq_none hstop)
  exact ⟨hall.1 [0x41], hall.2.1 4⟩

end MicroKernel.Fat32
