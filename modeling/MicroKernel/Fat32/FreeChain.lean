import MicroKernel.Fat32.Chain
import MicroKernel.Fat32.FreeCount
import MicroKernel.Lib.Walk

set_option autoImplicit false

/-! # Freeing along any links

`free_cluster_chain` reads a FAT that it is destroying. On a chain that runs into itself it comes
back to an entry that it has cleared, and stops there: whatever the FAT is, the clusters that the
links lead to are freed, and no others (`freeClusterChain_frees`). Each mark writes the sector of the
first copy of the FAT to all copies, so a copy that differs becomes the same there.
-/

namespace MicroKernel.Fat32

open MicroKernel.Lib Bytes

namespace Volume

variable (V : Volume) (d : Disk)

/-- Where `free_cluster_chain` goes after cluster `c`. -/
def freeStep (c : Nat) : Option Nat := if V.Has (V.fat d c) then some (V.fat d c) else none

/-- The disk after the clusters `F` have been freed. The FAT sectors with an entry of one of them
are, in all copies, the sector of the first copy with these entries cleared. -/
structure Freed (F : Finset Nat) (d' : Disk) : Prop where
  touched : ∀ k c x, k < V.bs.numberOfFats → c ∈ F → x / 128 = c / 128 →
    V.rawFat d' k x = if x ∈ F then withLow28 (V.rawFat d 0 x) 0 else V.rawFat d 0 x
  others : ∀ n, (∀ k c, k < V.bs.numberOfFats → c ∈ F → n ≠ V.fatPos k c) → d' n = d n

variable {V d} {F : Finset Nat} {d' : Disk} {c x k : Nat}

theorem freed_empty : V.Freed d ∅ d where
  touched := by simp
  others := fun _ _ => rfl

theorem withLow28_withLow28 (n v : Nat) : withLow28 (withLow28 n v) 0 = withLow28 n 0 := by
  unfold withLow28
  omega

/-- A sector of the FAT without an entry of a freed cluster. -/
theorem Freed.untouched (h : V.Freed d F d') (hF : ∀ y, y ∈ F → V.Has y) (hc : c < V.total)
    (hno : ∀ y, y ∈ F → c / 128 ≠ y / 128) : d' (V.fatPos k c) = d (V.fatPos k c) := by
  refine h.others _ fun k' y _ hy hpos => ?_
  exact hno y hy (V.fatPos_inj hc (hF y hy).2 hpos).2

/-- The first copy of the FAT, in the sector with the entry of `c`. -/
theorem Freed.first (h : V.Freed d F d') (hF : ∀ y, y ∈ F → V.Has y) (hc : c < V.total)
    (hx : x / 128 = c / 128) :
    V.rawFat d' 0 x = if x ∈ F then withLow28 (V.rawFat d 0 x) 0 else V.rawFat d 0 x := by
  by_cases hsector : ∃ y, y ∈ F ∧ c / 128 = y / 128
  · obtain ⟨y, hy, hcy⟩ := hsector
    exact h.touched 0 y x V.numberOfFats_pos hy (hx.trans hcy)
  · have hno : x ∉ F := fun hmem => hsector ⟨x, hmem, hx.symm⟩
    have hpos : V.fatPos 0 x = V.fatPos 0 c := by
      unfold fatPos
      rw [hx]
    rw [if_neg hno, rawFat, rawFat, hpos,
      h.untouched hF hc fun y hy hcy => hsector ⟨y, hy, hcy⟩]

theorem Freed.fat (h : V.Freed d F d') (hF : ∀ y, y ∈ F → V.Has y) (hx : x < V.total) :
    V.fat d' x = if x ∈ F then 0 else V.fat d x := by
  unfold Volume.fat
  rw [h.first hF hx rfl]
  split
  · rw [withLow28_mod, Nat.zero_mod]
  · rfl

/-- An entry that is the same in a copy as in the first one. -/
theorem Freed.agreeing (h : V.Freed d F d') (hF : ∀ y, y ∈ F → V.Has y)
    (hk : k < V.bs.numberOfFats) (hx : x < V.total) (hagree : V.rawFat d k x = V.rawFat d 0 x) :
    V.rawFat d' k x = if x ∈ F then withLow28 (V.rawFat d k x) 0 else V.rawFat d k x := by
  by_cases hsector : ∃ y, y ∈ F ∧ x / 128 = y / 128
  · obtain ⟨y, hy, hxy⟩ := hsector
    rw [h.touched k y x hk hy hxy, hagree]
  · have hno : x ∉ F := fun hmem => hsector ⟨x, hmem, rfl⟩
    rw [if_neg hno, rawFat, rawFat, h.untouched hF hx fun y hy hxy => hsector ⟨y, hy, hxy⟩]

/-- The first copy after one more cluster has been freed. -/
theorem Freed.first_mark (h : V.Freed d F d') (hF : ∀ y, y ∈ F → V.Has y) (hc : V.Has c)
    (hx : x / 128 = c / 128) :
    (if x = c then withLow28 (V.rawFat d' 0 c) 0 else V.rawFat d' 0 x)
      = if x ∈ insert c F then withLow28 (V.rawFat d 0 x) 0 else V.rawFat d 0 x := by
  have hfirst := h.first hF hc.2 hx
  by_cases hxc : x = c
  · subst hxc
    rw [if_pos rfl, if_pos (Finset.mem_insert_self x F), hfirst]
    split
    · exact withLow28_withLow28 _ _
    · rfl
  · rw [if_neg hxc, hfirst]
    simp only [Finset.mem_insert, hxc, false_or]

/-- One more cluster is freed. -/
theorem Freed.mark (h : V.Freed d F d') (hF : ∀ y, y ∈ F → V.Has y) (hc : V.Has c) :
    V.Freed d (insert c F) (V.setFat d' c 0 V.bs.numberOfFats) where
  touched := by
    intro k y x hk hy hx
    by_cases hsector : x / 128 = c / 128
    · rw [V.rawFat_setFat_sector d' hk hsector, h.first_mark hF hc hsector]
    · -- another sector, with an entry of a cluster that was freed before
      have hyF : y ∈ F := by
        rcases Finset.mem_insert.mp hy with rfl | hyF
        · exact absurd hx hsector
        · exact hyF
      have hpos : V.fatPos k x = V.fatPos k y := by
        unfold fatPos
        rw [hx]
      have hsame : V.setFat d' c 0 V.bs.numberOfFats (V.fatPos k y) = d' (V.fatPos k y) := by
        rw [setFat, putCopies, if_neg]
        rintro ⟨j, -, hj⟩
        exact hsector (hx.trans (V.fatPos_inj (hF y hyF).2 hc.2 hj).2)
      have hxc : x ≠ c := fun hxc => hsector (by rw [hxc])
      have hold := h.touched k y x hk hyF hx
      unfold rawFat at hold ⊢
      rw [hpos] at hold ⊢
      rw [hsame, hold]
      simp only [Finset.mem_insert, hxc, false_or]
  others := by
    intro n hn
    rw [setFat, putCopies, if_neg]
    · exact h.others n fun k y hk hy => hn k y hk (Finset.mem_insert_of_mem hy)
    · rintro ⟨k, hk, hpos⟩
      exact hn k c hk (Finset.mem_insert_self c F) hpos

end Volume

/-! ## One mark -/

section mark

variable {V : Volume} {s s₀ : Fs} {e : Env} {start c : Nat} {F : Finset Nat}

theorem Fs.On.marked (h : s.On V) (c v : Nat) : (s.marked V c v).On V := by
  unfold Fs.marked
  obtain ⟨f, hf⟩ := Fs.adjustCount_eq (s.withDisk (V.setFat s.disk c v V.bs.numberOfFats))
    (V.fat s.disk c) v
  rw [hf]
  exact ⟨h.boot, h.offset, h.drive⟩

/-- The count of free clusters after a mark. It stops at the mark of an unknown count. -/
theorem Fs.freeClusterCount_marked (hvalid : s.fsinfoValid = true) (V : Volume) (c : Nat) :
    (s.marked V c 0).freeClusterCount
      = if V.fat s.disk c = 0 then s.freeClusterCount else min (s.freeClusterCount + 1) 0xFFFFFFFF := by
  have hlt : s.freeClusterCount < 2 ^ 32 := load32_lt _ _
  have hsame : (s.withDisk (V.setFat s.disk c 0 V.bs.numberOfFats)).freeClusterCount
      = s.freeClusterCount := rfl
  unfold Fs.marked Fs.adjustCount
  rw [if_neg (by simp)]
  split
  next hused =>
    rw [if_neg hused.1]
    unfold Fs.updateFsinfoFreeCount
    rw [if_neg (by simp [hvalid]), hsame]
    split
    next hunknown =>
      rw [hsame]
      omega
    next hknown =>
      rw [if_neg (by omega)]
      change Sector.field (Sector.setField _ _ _) 488 = _
      rw [Sector.field_setField_same _ (by omega)]
      omega
  next hfree =>
    rw [if_pos (by simpa using hfree), hsame]

/-- After the clusters `F` have been freed in a walk from `start`. -/
structure Freeing (V : Volume) (s₀ : Fs) (start : Nat) (F : Finset Nat) (s : Fs) : Prop where
  on : s.On V
  has : ∀ y, y ∈ F → V.Has y
  comes : ∀ y, y ∈ F → ComesTo (V.freeStep s₀.disk) start y
  freed : V.Freed s₀.disk F s.disk
  valid : s.fsinfoValid = s₀.fsinfoValid
  count : s₀.fsinfoValid = true → s.freeClusterCount
    = min (s₀.freeClusterCount + (F.filter fun y => V.fat s₀.disk y ≠ 0).card) 0xFFFFFFFF

theorem freeing_empty (h : s.On V) (start : Nat) : Freeing V s start ∅ s where
  on := h
  has := by simp
  comes := by simp
  freed := Volume.freed_empty
  valid := rfl
  count := fun _ => by
    have hlt : s.freeClusterCount < 2 ^ 32 := load32_lt _ _
    rw [Finset.filter_empty, Finset.card_empty]
    omega

/-- One more mark. -/
theorem Freeing.mark (h : Freeing V s₀ start F s) (hc : V.Has c)
    (hcomes : ComesTo (V.freeStep s₀.disk) start c) :
    Freeing V s₀ start (insert c F) (s.marked V c 0) where
  on := h.on.marked c 0
  has := by
    intro y hy
    rcases Finset.mem_insert.mp hy with rfl | hy
    · exact hc
    · exact h.has y hy
  comes := by
    intro y hy
    rcases Finset.mem_insert.mp hy with rfl | hy
    · exact hcomes
    · exact h.comes y hy
  freed := by
    rw [Fs.marked_disk]
    exact h.freed.mark h.has hc
  valid := by rw [Fs.marked_fsinfoValid, h.valid]
  count := by
    intro hvalid
    rw [Fs.freeClusterCount_marked (h.valid.trans hvalid), h.count hvalid,
      h.freed.fat h.has hc.2, Finset.filter_insert]
    by_cases hmem : c ∈ F
    · rw [if_pos hmem, if_pos rfl]
      by_cases hused : V.fat s₀.disk c ≠ 0
      · rw [if_pos hused, Finset.insert_eq_self.mpr (Finset.mem_filter.mpr ⟨hmem, hused⟩)]
      · rw [if_neg hused]
    · rw [if_neg hmem]
      by_cases hused : V.fat s₀.disk c ≠ 0
      · rw [if_neg hused, if_pos hused,
          Finset.card_insert_of_notMem fun hn => hmem (Finset.mem_filter.mp hn).1]
        omega
      · rw [if_pos (not_not.mp hused), if_neg hused]

end mark

/-! ## The walk -/

section walk

variable {V : Volume} {s s₀ : Fs} {e : Env} {start c : Nat} {F : Finset Nat}

/-- One turn of the loop. -/
theorem run_freeChainLoop_turn (he : e.Reliable) (h : s.On V) (hc : V.Has c) (k i : Nat) :
    (freeChainLoop (k + 1) i c).run e s
      = if V.Has (V.fat s.disk c) then
          (freeChainLoop k (i + 1) (V.fat s.disk c)).run e (s.marked V c 0)
        else some (true, s.marked V c 0) := by
  rw [freeChainLoop, Prog.run_bind, run_within, run_within,
    run_getNext_reliable ((he.enter _).enter _) h hc, Option.bind_some, Prog.run_bind, run_within,
    run_within, run_markClusterInFat_of_marks ((he.enter _).enter _).marks h hc, Option.bind_some]
  simp only [Bool.not_true, Bool.false_eq_true, if_false]
  by_cases heoc : eocMin ≤ V.fat s.disk c
  · rw [nextOf, if_pos heoc, if_pos (Or.inl rfl), if_neg fun hn => absurd hn.lt_eocMin (by omega)]
    rfl
  · rw [nextOf, if_neg heoc, if_neg (goes_on (by omega)), Prog.run_bind, Prog.run_get,
      Option.bind_some]
    dsimp only
    rw [(h.marked c 0).boot, Prog.run_ite]
    by_cases hnext : V.Has (V.fat s.disk c)
    · rw [if_pos hnext, (isValidCluster_iff (by omega)).mpr hnext, Bool.not_true,
        if_neg (by decide)]
    · have hinvalid : V.bs.isValidCluster (V.fat s.disk c) = false := by
        rw [Bool.eq_false_iff]
        exact fun hv => hnext ((isValidCluster_iff (by omega)).mp hv)
      rw [if_neg hnext, hinvalid, Bool.not_false, if_pos rfl]
      rfl

/-- The loop at cluster `c` of a walk from `start`, after the clusters `F`. It comes to new clusters
only: what has been freed is no link any more. -/
theorem run_freeChainLoop_frees (he : e.Reliable) {k i : Nat} (h : Freeing V s₀ start F s)
    (hc : V.Has c) (hcomes : ComesTo (V.freeStep s₀.disk) start c) (hstart : start ∈ insert c F)
    (hclosed : ∀ x y, x ∈ F → V.freeStep s₀.disk x = some y → y ∈ insert c F)
    (hk : V.total < k + F.card) :
    ∃ s' F', (freeChainLoop k i c).run e s = some (true, s') ∧ Freeing V s₀ start F' s' ∧
      start ∈ F' ∧ ∀ x y, x ∈ F' → V.freeStep s₀.disk x = some y → y ∈ F' := by
  induction k generalizing s F c i with
  | zero =>
      have hsub : F ⊆ Finset.range V.total := fun y hy => Finset.mem_range.mpr (h.has y hy).2
      have hcard := Finset.card_le_card hsub
      rw [Finset.card_range] at hcard
      omega
  | succ k ih =>
      have hmarked := h.mark hc hcomes
      have hfat := h.freed.fat h.has hc.2
      rw [run_freeChainLoop_turn he h.on hc]
      split
      next hnext =>
        -- a link is left, so the cluster has not been freed before
        have hnew : c ∉ F := by
          intro hmem
          rw [hfat, if_pos hmem] at hnext
          exact absurd hnext.1 (by decide)
        rw [if_neg hnew] at hfat
        have hstep : V.freeStep s₀.disk c = some (V.fat s.disk c) := by
          rw [hfat] at hnext ⊢
          exact if_pos hnext
        have hcard : (insert c F).card = F.card + 1 := Finset.card_insert_of_notMem hnew
        refine ih hmarked hnext (hcomes.step hstep) (Finset.mem_insert_of_mem hstart) ?_ (by omega)
        intro x y hx hxy
        rcases Finset.mem_insert.mp hx with rfl | hx
        · rw [hstep] at hxy
          obtain rfl := Option.some.inj hxy
          exact Finset.mem_insert_self _ _
        · exact Finset.mem_insert_of_mem (hclosed x y hx hxy)
      next hnext =>
        refine ⟨_, _, rfl, hmarked, hstart, fun x y hx hxy => ?_⟩
        rcases Finset.mem_insert.mp hx with rfl | hx
        · by_cases hmem : x ∈ F
          · exact hclosed x y hmem hxy
          · rw [if_neg hmem] at hfat
            rw [hfat] at hnext
            rw [Volume.freeStep, if_neg hnext] at hxy
            cases hxy
        · exact hclosed x y hx hxy

/-- The clusters that have become free. -/
theorem Freeing.freeSet_sdiff (h : Freeing V s₀ start F s) :
    V.freeSet s.disk \ V.freeSet s₀.disk = F.filter fun y => V.fat s₀.disk y ≠ 0 := by
  ext y
  rw [Finset.mem_sdiff, Volume.mem_freeSet, Volume.mem_freeSet, Finset.mem_filter]
  constructor
  · rintro ⟨⟨hy, hzero⟩, hused⟩
    have hnz : V.fat s₀.disk y ≠ 0 := fun h0 => hused ⟨hy, h0⟩
    refine ⟨by_contra fun hmem => hnz ?_, hnz⟩
    rwa [h.freed.fat h.has hy.2, if_neg hmem] at hzero
  · rintro ⟨hmem, hnz⟩
    have hy := h.has y hmem
    refine ⟨⟨hy, ?_⟩, fun h0 => hnz h0.2⟩
    rw [h.freed.fat h.has hy.2, if_pos hmem]

/-- A whole call, with what holds of its walk. -/
theorem run_freeClusterChain_freeing (he : e.Reliable) (h : s.On V) (hc : V.Has start) :
    ∃ s' F, (freeClusterChain start).run e s = some (true, s') ∧ Freeing V s start F s' ∧
      ∀ c, c ∈ F ↔ ComesTo (V.freeStep s.disk) start c := by
  have hlt := V.total_lt
  obtain ⟨s', F, hrun, hend, hstart, hclosed⟩ := run_freeChainLoop_frees (k := steps) (i := 0) he
    (freeing_empty h start) hc (comesTo_refl _ _) (Finset.mem_insert_self _ _) (by simp)
    (by unfold steps; unfold eocMin at hlt; omega)
  refine ⟨s', F, ?_, hend, fun c => mem_iff_comesTo hstart hclosed hend.comes⟩
  unfold freeClusterChain
  rw [Prog.run_bind, Prog.run_get, Option.bind_some]
  dsimp only
  rw [h.boot, (isValidCluster_iff hc.lt_eocMin).mpr hc, Bool.not_true, if_neg (by decide), hrun]

/-- **`free_cluster_chain`** on any FAT returns `true`. It frees the clusters that the links lead to
from the start, up to the first entry that is none, and changes no other entry where the copies of
the FAT agree. The count of free clusters goes up by the number of entries that have become zero, as
far as the mark of an unknown count. -/
theorem freeClusterChain_frees (he : e.Reliable) (h : s.On V) (hc : V.Has start) :
    ∃ s' F, (freeClusterChain start).run e s = some (true, s') ∧
      (∀ c, c ∈ F ↔ ComesTo (V.freeStep s.disk) start c) ∧ V.Freed s.disk F s'.disk ∧
      (∀ k c, k < V.bs.numberOfFats → c < V.total → V.rawFat s.disk k c = V.rawFat s.disk 0 c →
        V.rawFat s'.disk k c
          = if c ∈ F then withLow28 (V.rawFat s.disk k c) 0 else V.rawFat s.disk k c) ∧
      (s.fsinfoValid = true → s'.fsinfoValid = true ∧ s'.freeClusterCount
        = min (s.freeClusterCount + (V.freeSet s'.disk \ V.freeSet s.disk).card) 0xFFFFFFFF) := by
  obtain ⟨s', F, hrun, hend, hcomes⟩ := run_freeClusterChain_freeing he h hc
  refine ⟨s', F, hrun, hcomes, hend.freed,
    fun k c hk hc' hagree => hend.freed.agreeing hend.has hk hc' hagree,
    fun hvalid => ⟨hend.valid.trans hvalid, ?_⟩⟩
  rw [hend.freeSet_sdiff]
  exact hend.count hvalid

end walk

/-! ### Copies that differ, and a count at its end -/

/-- The chain 3, 4 on the small volume, and cluster 5, in use. -/
def linkedFat (c : Nat) : Nat := if c = 3 then 4 else if c = 2 ∨ c = 4 ∨ c = 5 then eocMax else 0

/-- The small volume with this FAT. -/
def linkedFs : Fs := smallFs linkedFat (fun _ _ => zeroEntry) (fun _ => 0)

/-- The chain is freed. -/
theorem freeClusterChain_frees_linked : ∃ s', ∃ F : Finset Nat,
    (freeClusterChain 3).run quietEnv linkedFs = some (true, s') ∧
      ∀ c, c ∈ F ↔ ComesTo (smallVolume.freeStep linkedFs.disk) 3 c := by
  obtain ⟨s', F, hrun, hF, -⟩ := freeClusterChain_frees quietEnv_reliable
    (show linkedFs.On smallVolume from ⟨rfl, rfl, rfl⟩) (show smallVolume.Has 3 by decide)
  exact ⟨s', F, hrun, hF⟩

/-- What the freeing of a chain would do if the copies of the FAT were changed one by one and the
count had no end. -/
structure FreesExactly (V : Volume) (e : Env) (s : Fs) (start : Nat) (s' : Fs) : Prop where
  run : (freeClusterChain start).run e s = some (true, s')
  freed : ∀ k c, k < V.bs.numberOfFats → ComesTo (V.freeStep s.disk) start c →
    V.rawFat s'.disk k c = withLow28 (V.rawFat s.disk k c) 0
  others : ∀ k c, k < V.bs.numberOfFats → V.Has c → ¬ ComesTo (V.freeStep s.disk) start c →
    V.rawFat s'.disk k c = V.rawFat s.disk k c
  count : s.fsinfoValid = true → s.freeClusterCount ≠ 0xFFFFFFFF →
    s'.freeClusterCount = s.freeClusterCount + (V.freeSet s'.disk \ V.freeSet s.disk).card

/-- The second copy of the FAT is all zeros. -/
def differingFs : Fs :=
  linkedFs.withDisk (Function.update linkedFs.disk 3 fun _ => 0)

/-- The count of free clusters is one below the mark of an unknown count. -/
def fullCountFs : Fs :=
  smallFs linkedFat (fun _ _ => zeroEntry) (Sector.setField (fun _ => 0) 488 0xFFFFFFFE)

/-- The entry of cluster 5 is copied to the second copy; and the count of two more clusters does not
fit. -/
theorem not_freesExactly :
    (∀ s', ¬ FreesExactly smallVolume quietEnv differingFs 3 s') ∧
      ∀ s', ¬ FreesExactly smallVolume quietEnv fullCountFs 3 s' := by
  constructor
  · intro s' hexact
    obtain ⟨s₁, F, hrun, hend, hcomes⟩ := run_freeClusterChain_freeing quietEnv_reliable
      (show differingFs.On smallVolume from ⟨rfl, rfl, rfl⟩) (show smallVolume.Has 3 by decide)
    obtain rfl : s' = s₁ := (Prod.mk.inj (Option.some.inj (hexact.run.symm.trans hrun))).2
    have hno : ¬ ComesTo (smallVolume.freeStep differingFs.disk) 3 5 := by
      intro hcomes
      have h3 : smallVolume.freeStep differingFs.disk 3 = some 4 := by decide
      have h4 : smallVolume.freeStep differingFs.disk 4 = none := by decide
      have hmem := hcomes.mem (t := {3, 4}) (by decide) fun x y hx hxy => by
        rcases Finset.mem_insert.mp hx with rfl | hx
        · rw [h3] at hxy
          obtain rfl := Option.some.inj hxy
          decide
        · rw [Finset.mem_singleton.mp hx, h4] at hxy
          cases hxy
      revert hmem
      decide
    -- cluster 5 has its entry in the sector of cluster 3, which is freed
    have htouched := hend.freed.touched 1 3 5 (by decide) ((hcomes 3).mpr (comesTo_refl _ _)) rfl
    rw [if_neg fun hmem => hno ((hcomes 5).mp hmem),
      hexact.others 1 5 (by decide) (by decide) hno] at htouched
    revert htouched
    decide
  · intro s' hexact
    obtain ⟨s₁, F, hrun, hend, hcomes⟩ := run_freeClusterChain_freeing quietEnv_reliable
      (show fullCountFs.On smallVolume from ⟨rfl, rfl, rfl⟩) (show smallVolume.Has 3 by decide)
    obtain rfl : s' = s₁ := (Prod.mk.inj (Option.some.inj (hexact.run.symm.trans hrun))).2
    have hlink : smallVolume.freeStep fullCountFs.disk 3 = some 4 := by decide
    have hvalid : fullCountFs.fsinfoValid = true := by decide
    have hcount : fullCountFs.freeClusterCount = 0xFFFFFFFE := by decide
    -- two clusters of the walk become free
    have htwo : ({3, 4} : Finset Nat) ⊆ F.filter fun y => smallVolume.fat fullCountFs.disk y ≠ 0 := by
      intro y hy
      rcases Finset.mem_insert.mp hy with rfl | hy
      · exact Finset.mem_filter.mpr ⟨(hcomes 3).mpr (comesTo_refl _ _), by decide⟩
      · obtain rfl := Finset.mem_singleton.mp hy
        exact Finset.mem_filter.mpr
          ⟨(hcomes 4).mpr ((comesTo_refl _ _).step hlink), by decide⟩
    have hcard : 2 ≤ _ := Finset.card_le_card htwo
    have hexactly := hexact.count hvalid (by rw [hcount]; decide)
    rw [hend.freeSet_sdiff, hend.count hvalid, hcount] at hexactly
    omega

end MicroKernel.Fat32
