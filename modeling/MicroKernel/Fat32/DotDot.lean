import MicroKernel.Fat32.Create
import MicroKernel.Fat32.Ownership

set_option autoImplicit false

/-! # Down and up again

`initialize_new_directory_entries` gives a new directory a dot-dot entry with the cluster of its
parent. But `compare_names` takes the first dot of a string for the one in front of the extension:
`..` matches the name of eight spaces and the extension `.`, which `convert_to_83_format` never
makes. So `fat32_change_directory("..")` fails in every directory that the driver has made, whatever
has been done to it since.
-/

namespace MicroKernel.Fat32

open MicroKernel.Lib Bytes

/-- The string `..`. -/
def dotDot : List UInt8 := [0x2E, 0x2E]

/-! ## Names that do not match -/

/-- No name that the driver writes matches `..`, not even that of the dot-dot entry. -/
theorem compareNames_convert_dotDot (nm : List UInt8) :
    compareNames (convertTo83Format nm) dotDot = false := by
  rw [← Bool.not_eq_true, compareNames_iff]
  rintro ⟨-, hrest, -⟩
  have heq := hrest.equal 0 (by omega) (by decide)
  rw [show toupper ((restOf dotDot).getD 0 0) = 0x2E by decide, toupper_eq_iff (by decide),
    Nat.add_zero] at heq
  by_cases h1 : cString nm = [0x2E]
  · unfold convertTo83Format at heq
    unfold cString at h1
    rw [h1] at heq
    exact absurd heq (by decide)
  by_cases h2 : cString nm = [0x2E, 0x2E]
  · unfold convertTo83Format at heq
    unfold cString at h2
    rw [h2] at heq
    exact absurd heq (by decide)
  -- the extension has letters, digits and spaces
  rw [convertTo83Format_eq h1 h2, if_neg (by omega)] at heq
  rcases partChar_cases 3 ((cString nm).drop ((baseOf nm).length + 1)) (8 - 8) with h | ⟨c, hc, h⟩
  · rw [h] at heq
    exact absurd heq (by decide)
  · rw [h, toupper_eq_iff (by decide)] at heq
    rw [heq] at hc
    exact absurd hc (by decide)

theorem compareNames_newEntry_dotDot (e : Env) (nm : List UInt8) (r : Nat) (attributes : UInt8) :
    compareNames (e.newEntry nm r attributes).name dotDot = false := by
  rw [compareNames_congr fun k hk => name_newEntry e nm r attributes hk]
  exact compareNames_convert_dotDot nm

theorem compareNames_zeroEntry_dotDot : compareNames zeroEntry.name dotDot = false := by decide

/-! ## What stays true of a directory -/

/-- Directory `r` is a single cluster, and none of its slots has a name that `..` matches. -/
structure NoWayUp (V : Volume) (r : Nat) (s : Fs) : Prop where
  on : s.On V
  has : V.Has r
  last : V.fat s.disk r = eocMax
  unnamed : ∀ i, i < V.slots → compareNames (V.slot s.disk r i).name dotDot = false

section noWayUp

variable {V : Volume} {s s' : Fs} {e : Env} {op : DirOp} {nm : List UInt8} {r r₀ c j : Nat}

theorem CreatedAt.unnamed_new (h : CreatedAt V e .createDir nm r c j s s') {i : Nat}
    (hi : i < V.slots) : compareNames (V.slot s'.disk r i).name dotDot = false := by
  rw [h.slot r i h.taken hi]
  split
  · exact compareNames_newEntry_dotDot _ _ _ _
  · unfold Fs.preparedSlot
    rw [if_pos ⟨rfl, rfl⟩, entryAt_dots]
    split
    · exact compareNames_newEntry_dotDot _ _ _ _
    · split
      · exact compareNames_newEntry_dotDot _ _ _ _
      · exact compareNames_zeroEntry_dotDot

/-- A new directory. -/
theorem CreatedAt.noWayUp (h : CreatedAt V e .createDir nm r₀ c j s s') (hr : V.Has r)
    (h0 : V.fat s.disk r = 0) (hused : V.fat s'.disk r ≠ 0) : NoWayUp V r s' := by
  have hfat := h.fat r hr
  by_cases heq : r = r₀
  · subst heq
    rw [if_pos rfl] at hfat
    exact ⟨h.ready.on, hr, hfat, fun i hi => h.unnamed_new hi⟩
  · rw [if_neg heq, h0] at hfat
    exact absurd hfat hused

/-- One operation, in any directory of the volume. -/
theorem NoWayUp.change (h : NoWayUp V r s) (hs : s.Ready V) (hs' : s'.On V)
    (hused : V.fat s'.disk r ≠ 0) (hc : Change V e op nm s s') : NoWayUp V r s' := by
  have hne : V.fat s.disk r ≠ 0 := by
    rw [h.last]
    decide
  cases hc with
  | quiet hfat hslot =>
      refine ⟨hs', h.has, by rw [hfat r h.has, h.last], fun i hi => ?_⟩
      rw [hslot r i h.has hi hne]
      exact h.unnamed i hi
  | @created r₀ c j _ hc =>
      have hr : r ≠ r₀ := by
        rintro rfl
        exact hne hc.unused
      refine ⟨hs', h.has, by rw [hc.fat r h.has, if_neg hr, h.last], fun i hi => ?_⟩
      rw [hc.slot r i h.has hi]
      split
      · exact compareNames_newEntry_dotDot _ _ _ _
      · rw [Fs.preparedSlot_ne _ _ _ _ _ hr]
        exact h.unnamed i hi
  | deleted hd =>
      refine ⟨hs', h.has, ?_, fun i hi => ?_⟩
      · rw [← h.last]
        exact (hd.fat hs h.has).resolve_left hused
      · rw [hd.slotAt hs h.has hi]
        split
        · exact compareNames_zeroEntry_dotDot
        · exact h.unnamed i hi

/-- `find_next_cluster` looks at the only cluster of the directory and finds nothing. -/
theorem NoWayUp.searchFrom (h : NoWayUp V r s) :
    s.searchFrom dotDot steps r = some invalidCluster := by
  obtain ⟨k, hk⟩ := steps_eq_succ
  have hscan := findIn_spec s dotDot r
  rw [hk, Fs.searchFrom]
  revert hscan
  cases s.findIn dotDot r with
  | found x =>
      rintro ⟨i, hi, -⟩
      have hlt : i < V.slots := by
        rw [← slotCount_eq h.on]
        exact hi.lt
      have hnamed := hi.taken.2.2
      rw [Fs.isDirNamed, Bool.and_eq_true, dirSlot_eq h.on h.has hlt, h.unnamed i hlt] at hnamed
      cases hnamed.2
  | ended => exact fun _ => rfl
  | more =>
      intro _
      have hnext : s.nextCluster r = invalidCluster := by
        rw [nextCluster_eq h.on h.has, h.last]
        rfl
      dsimp only
      rw [hnext, if_neg (by decide)]

theorem NoWayUp.changeDirectory (h : NoWayUp V r s) (he : e.Reliable)
    (hcwd : s.currentDirectoryCluster = r) :
    (fat32ChangeDirectory dotDot).run e s = some (false, s) := by
  have htokens : pathTokens dotDot = [dotDot] := by decide
  have hstart : s.pathStart dotDot = r := hcwd
  rw [run_fat32ChangeDirectory he h.on, htokens, hstart, Fs.followFrom, h.searchFrom]
  rfl

theorem NoWayUp.withCwd (h : NoWayUp V r s) (target : Nat) :
    NoWayUp V r { s with currentDirectoryCluster := target } :=
  ⟨⟨h.on.boot, h.on.offset, h.on.drive⟩, h.has, h.last, h.unnamed⟩

end noWayUp

/-! ## Runs -/

/-- `fat32_create_dir` has made a directory in cluster `r`, at some time, and the cluster has been
in use since. Nothing fails, and the calls are made in directories of the volume. -/
inductive MadeDir (V : Volume) (r : Nat) : Fs → Prop where
  | create {e : Env} {nm : List UInt8} {s s' : Fs} (he : e.Reliable) (h : s.Ready V)
      (hr : V.Has r) (h0 : V.fat s.disk r = 0)
      (hrun : (fat32CreateDir nm).run e s = some (true, s')) (hused : V.fat s'.disk r ≠ 0) :
      MadeDir V r s'
  | call {e : Env} {c : TreeCall} {b : Bool} {s s' : Fs} (hm : MadeDir V r s) (he : e.Reliable)
      (h : s.Ready V) (hrun : c.call.run e s = some (b, s')) (hused : V.fat s'.disk r ≠ 0) :
      MadeDir V r s'

section runs

variable {V : Volume} {s s' : Fs} {r : Nat}

theorem MadeDir.noWayUp (hm : MadeDir V r s) : NoWayUp V r s := by
  induction hm with
  | @create e nm s s' he h hr h0 hrun hused =>
      have hcall : (DirOp.createDir.call nm).run e s = some (true, s') := hrun
      obtain ⟨r₀, c, j, hc⟩ := createdAt_of_run he h (Or.inr rfl) hcall
      exact hc.noWayUp hr h0 hused
  | @call e c b s s' _ he h hrun hused ih =>
      cases c with
      | dir op nm =>
          have hready := (op.outcome he h hrun).ready h
          exact ih.change h hready.on hused (op.change he h hrun)
      | changeDirectory path =>
          obtain ⟨target, rfl⟩ := changeDirectory_state he h.on hrun
          exact ih.withCwd target

/-- **Never up again.** Once `fat32_change_directory` has gone down into a directory that
`fat32_create_dir` made, `fat32_change_directory("..")` fails and stays there. -/
theorem changeDirectory_up_fails {e e' : Env} (he : e.Reliable) (he' : e'.Reliable)
    (hm : MadeDir V r s) {d : List UInt8}
    (hdown : (fat32ChangeDirectory d).run e s = some (true, s'))
    (hcwd : s'.currentDirectoryCluster = r) :
    (fat32ChangeDirectory dotDot).run e' s' = some (false, s') := by
  have hup := hm.noWayUp
  obtain ⟨target, rfl⟩ := changeDirectory_state he hup.on hdown
  exact (hup.withCwd target).changeDirectory he' hcwd

end runs

/-- The directory `D` is made in an empty root, in cluster 3. -/
theorem emptyRootFs_makes : ∃ s₁ s₂, MadeDir smallVolume 3 s₁ ∧
    s₁.currentDirectoryCluster = 2 ∧
    (fat32ChangeDirectory [0x44]).run quietEnv s₁ = some (true, s₂) ∧
    s₂.currentDirectoryCluster = 3 := by
  have hrun : ((fat32CreateDir [0x44]).run quietEnv emptyRootFs).map (fun p =>
      (p.1, smallVolume.fat p.2.disk 3, p.2.currentDirectoryCluster,
        ((fat32ChangeDirectory [0x44]).run quietEnv p.2).map
          fun q => (q.1, q.2.currentDirectoryCluster)))
      = some (true, eocMax, 2, some (true, 3)) := by
    decide +kernel
  obtain ⟨⟨b, s₁⟩, hmake, heq⟩ := Option.map_eq_some_iff.mp hrun
  simp only [Prod.mk.injEq] at heq
  obtain ⟨rfl, hfat, hcwd, hdown⟩ := heq
  obtain ⟨⟨b, s₂⟩, hdown, heq⟩ := Option.map_eq_some_iff.mp hdown
  simp only [Prod.mk.injEq] at heq
  obtain ⟨rfl, hcwd'⟩ := heq
  refine ⟨s₁, s₂, .create quietEnv_reliable (smallFs_ready _ _ _) (by decide) (by decide)
    hmake ?_, hcwd, hdown, hcwd'⟩
  rw [hfat]
  decide

/-- Down into the new directory, and not up again. -/
theorem changeDirectory_up_fails_emptyRoot : ∃ s₁ s₂, MadeDir smallVolume 3 s₁ ∧
    (fat32ChangeDirectory [0x44]).run quietEnv s₁ = some (true, s₂) ∧
    (fat32ChangeDirectory dotDot).run quietEnv s₂ = some (false, s₂) := by
  obtain ⟨s₁, s₂, hm, -, hdown, hcwd⟩ := emptyRootFs_makes
  exact ⟨s₁, s₂, hm, hdown,
    changeDirectory_up_fails quietEnv_reliable quietEnv_reliable hm hdown hcwd⟩

/-- In particular not back to the root. -/
theorem not_up_to_root : ∃ s₁ s₂, MadeDir smallVolume 3 s₁ ∧ s₁.currentDirectoryCluster = 2 ∧
    (fat32ChangeDirectory [0x44]).run quietEnv s₁ = some (true, s₂) ∧
    ¬ ∃ s₃, (fat32ChangeDirectory dotDot).run quietEnv s₂ = some (true, s₃) ∧
      s₃.currentDirectoryCluster = s₁.currentDirectoryCluster := by
  obtain ⟨s₁, s₂, hm, hroot, hdown, hcwd⟩ := emptyRootFs_makes
  refine ⟨s₁, s₂, hm, hroot, hdown, ?_⟩
  rintro ⟨s₃, hup, -⟩
  obtain ⟨target, rfl⟩ := changeDirectory_state quietEnv_reliable hm.noWayUp.on hdown
  rw [(hm.noWayUp.withCwd target).changeDirectory quietEnv_reliable hcwd] at hup
  cases hup

end MicroKernel.Fat32
