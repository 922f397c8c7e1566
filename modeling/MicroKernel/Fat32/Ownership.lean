import MicroKernel.Fat32.Reach
import MicroKernel.Fat32.Tree

set_option autoImplicit false

/-! # Runs that keep the tree

The operations of the driver as changes of the directory tree. Creating always keeps it. Three
things break it, and each is excluded by a condition on the state before the call
(`TreeCall.Careful`):

* a deletion cuts off what lies behind the slot, and does not ask whether the entry is a dot
  entry of the current directory or, in `fat32_delete_file`, a directory with entries;
  `fat32_delete_dir` asks, but looks only at 16 slots and passes over names with a dot in the
  second place;
* `fat32_change_directory` follows a dot-dot entry that says 0 for the root and makes 0 the
  current directory.

In every run whose calls meet the condition no cluster is lost or shared
(`owned_of_carefulCalls`).
-/

namespace MicroKernel.Fat32

open MicroKernel.Lib Bytes

/-- The driver is in a directory of a well-formed volume. -/
structure Fs.InTree (s : Fs) (V : Volume) : Prop where
  ready : s.Ready V
  tree : Tree V s.disk V.bs.rootCluster
  cwd : V.IsDir s.disk V.bs.rootCluster s.currentDirectoryCluster

/-! ## Creating -/

section create

variable {V : Volume}

/-- The walk of `add_entry_to_directory` has come to `c`, and found no free slot before. -/
def OnPath (V : Volume) (d : Disk) (l : List Nat) (c : Nat) : Prop :=
  c = invalidCluster ∨ ∃ l₁ l₂, l = l₁ ++ c :: l₂ ∧
    ∀ c', c' ∈ l₁ → ∀ j, j < V.slots → (V.slot d c' j).isFree = false

theorem OnPath.next {d : Disk} {cwd c : Nat} {l : List Nat} (hl : V.Chain d cwd l)
    (h : OnPath V d l c) (hlt : c < eocMin)
    (hfull : V.Has c → ∀ j, j < V.slots → (V.slot d c j).isFree = false) :
    OnPath V d l (nextOf (V.fat d c)) := by
  rcases h with rfl | ⟨l₁, l₂, rfl, hbefore⟩
  · exact absurd hlt (by decide)
  · have htail := hl.append_right
    have hc : V.Has c := Volume.Chain.has htail htail.head_mem
    cases htail with
    | last hs =>
        left
        rw [nextOf, if_pos (Volume.link_eq_stop hs).2]
    | cons hn hrest =>
        obtain ⟨-, hfat, hlt', -⟩ := Volume.link_eq_next hn
        obtain ⟨l₃, rfl⟩ := hrest.eq_cons
        right
        rw [nextOf, hfat, if_neg (by omega)]
        refine ⟨l₁ ++ [c], l₃, by simp, fun c' hc' => ?_⟩
        rcases List.mem_append.mp hc' with hc' | hc'
        · exact hbefore c' hc'
        · rw [List.mem_singleton] at hc'
          rw [hc']
          exact hfull hc

theorem OnPath.head {d d' : Disk} {cwd : Nat} {l : List Nat} (hl : V.Chain d cwd l) :
    OnPath V d' l cwd := by
  obtain ⟨l', rfl⟩ := hl.eq_cons
  exact Or.inr ⟨[], l', rfl, fun c' hc' => by cases hc'⟩

variable {s t s₁ : Fs} {e : Env} {r : Nat} {l : List Nat}

/-- One step of the walk, when the drive does what it is asked. -/
theorem OnPath.step (he : e.Reliable) (ht : t.Ready V) {cwd i c v : Nat}
    (hl : V.Chain t.disk cwd l) (hp : OnPath V t.disk l c) (hc : c < eocMin)
    (hfull : V.Has c → ∀ j, j < V.slots → (V.slot t.disk c j).isFree = false)
    (hnext : (getNextClusterInChain c).run ((e.enter (.cluster i)).enter .next) t
      = some (v, t)) : OnPath V t.disk l v := by
  have hc' : V.Has c := by
    rcases hp with rfl | ⟨l₁, l₂, rfl, -⟩
    · exact absurd hc (by decide)
    · exact Volume.Chain.has hl (by simp)
  rw [run_getNext_reliable ((he.enter _).enter _) ht.on hc', Option.some.injEq,
    Prod.mk.injEq] at hnext
  rw [← hnext.1]
  exact hp.next hl hc hfull

theorem newEntry_live (nm : List UInt8) (cluster : Nat) {attributes : UInt8}
    (ha : (attributes &&& 0x0F == 0x0F) = false) :
    (e.newEntry nm cluster attributes).isLive = true := by
  obtain ⟨h1, h2⟩ := newDirectoryEntry_live (e.clock (.store 0 :: e.path))
    (e.clock (.store 1 :: e.path)) (e.clock (.store 2 :: e.path)) nm cluster attributes
  exact DirEntry.isLive_iff.mpr ⟨h1, h2, ha⟩

theorem newEntry_start (nm : List UInt8) {cluster : Nat} (attributes : UInt8)
    (hc : cluster < 2 ^ 32) : readStartCluster (e.newEntry nm cluster attributes) = cluster :=
  readStartCluster_newDirectoryEntry _ _ _ _ _ _ hc

theorem Volume.Has.lt_u32 {c : Nat} (h : V.Has c) : c < 2 ^ 32 := by
  have := h.lt_eocMin
  unfold eocMin at this
  omega

/-- `add_entry_to_directory`, once a cluster has been taken, adds an entry to the tree. -/
theorem creates_of_addEntry (he : e.Reliable) (hs : s.Ready V)
    (hl : V.Chain s.disk s.currentDirectoryCluster l) (hr : V.Has r) (h0 : V.fat s.disk r = 0)
    (ht : Prepared V s r t) {nm : List UInt8} {attributes : UInt8}
    (ha : (attributes &&& 0x0F == 0x0F) = false)
    (hdots : (e.newEntry nm r attributes).isDirectory = true →
      V.Dots t.disk r s.currentDirectoryCluster ∧
        ∀ j, 2 ≤ j → j < V.slots → (V.slot t.disk r j).isEnd = true)
    (hadd : (addEntryToDirectory s.currentDirectoryCluster nm r attributes).run e t
      = some (true, s₁)) :
    ∃ l₁ l₂ c₀ j₀, Creates V s.disk (s₁.flushed V).disk s.currentDirectoryCluster l₁ l₂ r c₀ j₀
      (e.newEntry nm r attributes) := by
  have htr := ht.ready hs
  have hrl : r ∉ l := fun hmem => Volume.Chain.fat_ne_zero hl hmem h0
  have hlt : V.Chain t.disk s.currentDirectoryCluster l := by
    refine Volume.Chain.congr_fat hl fun y hy => ?_
    rw [ht.fat hr (Volume.Chain.has hl hy), if_neg]
    rintro rfl
    exact hrl hy
  -- the loop stays on the chain of the directory
  rcases addEntryToDirectory_cases he (R := fun _ c => OnPath V t.disk l c)
    (fun _ _ _ hp hc hfull hnext => hp.step he htr hlt hc hfull hnext) htr.on hs.cwd
    (OnPath.head hl) hadd with ⟨hb, -⟩ | ⟨-, i, c₀, j₀, hp, hc₀, hj₀, hfree, hfirst, rfl⟩
  · cases hb
  · obtain ⟨l₁, l₂, rfl, hbefore⟩ := hp.resolve_left hc₀.ne_invalidCluster
    have hne : ∀ c, c ∈ l₁ ++ c₀ :: l₂ → c ≠ r := by
      rintro c hc rfl
      exact hrl hc
    have hslot : ∀ c, V.Has c → c ≠ r → ∀ j, j < V.slots →
        V.slot t.disk c j = V.slot s.disk c j := fun c hc hcr j hj => ht.slot hr hc hcr hj
    have hready := htr.withDisk (V.putSlot t.disk c₀ j₀ (e.newEntry nm r attributes))
    -- the slots of the new disk, in terms of the disk with the cluster taken
    have hput : ∀ c, V.Has c → ∀ j, j < V.slots →
        V.slot ((t.withDisk (V.putSlot t.disk c₀ j₀ (e.newEntry nm r attributes))).flushed V).disk
          c j = if c = c₀ ∧ j = j₀ then e.newEntry nm r attributes else V.slot t.disk c j := by
      intro c hc j hj
      rw [slot_flushed hready, Fs.withDisk_disk, V.slot_putSlot _ _ hj₀ hc₀.1 hc.1 hj]
    refine ⟨l₁, l₂, c₀, j₀, ?_⟩
    constructor
    case has => exact hr
    case free => exact h0
    case fat =>
      intro y hy
      rw [fat_flushed hready, Fs.withDisk_disk, V.fat_putSlot _ _ hj₀ hy.2, ht.fat hr hy]
    case chain => exact hl
    case lt => exact hj₀
    case wasFree =>
      rw [← hslot c₀ hc₀ (hne c₀ (by simp)) j₀ hj₀]
      exact hfree
    case before =>
      intro c hc j hj
      have hmem : c ∈ l₁ ++ c₀ :: l₂ := by simp [hc]
      rw [← hslot c (Volume.Chain.has hl hmem) (hne c hmem) j hj]
      exact hbefore c hc j hj
    case first =>
      intro j hj
      rw [← hslot c₀ hc₀ (hne c₀ (by simp)) j (by omega)]
      exact hfirst j hj
    case slot =>
      intro c hc hcr j hj
      rw [hput c hc j hj, hslot c hc hcr j hj]
    case live => exact newEntry_live nm r ha
    case start => exact newEntry_start nm attributes hr.lt_u32
    case dots =>
      intro hdir
      have hrc : r ≠ c₀ := fun hrc => hrl (by rw [hrc]; simp)
      have hkept : ∀ j, j < V.slots →
          V.slot ((t.withDisk (V.putSlot t.disk c₀ j₀ (e.newEntry nm r attributes))).flushed
            V).disk r j = V.slot t.disk r j := by
        intro j hj
        rw [hput r hr j hj, if_neg fun hcj => hrc hcj.1]
      obtain ⟨h1, h2⟩ := hdots hdir
      have hslots := V.two_lt_slots
      refine ⟨h1.congr fun i hi => hkept i (by omega), fun j hj hj' => ?_⟩
      rw [hkept j hj']
      exact h2 j hj hj'

/-- Giving the cluster back leaves the tree as it was. -/
theorem agrees_undone (hr : V.Has r) (h0 : V.fat s.disk r = 0) (ht : Prepared V s r t) :
    Agrees V s.disk (t.marked V r 0).disk where
  fat := by
    intro y hy
    rw [fat_marked hr hy, ht.fat hr hy]
    by_cases hyr : y = r
    · rw [if_pos hyr, hyr, h0, Nat.zero_mod]
    · rw [if_neg hyr, if_neg hyr]
  slot := by
    intro c hc hfat j hj
    rw [Fs.marked_disk, V.slot_setFat _ hr.2 (Nat.le_refl _)]
    refine ht.slot hr hc ?_ hj
    rintro rfl
    exact hfat h0

/-- Both ends of a create operation keep the tree. -/
theorem inTree_of_insert (he : e.Reliable) (h : s.InTree V) (hr : V.Has r)
    (h0 : V.fat s.disk r = 0) (ht : Prepared V s r t) {nm : List UInt8} {attributes : UInt8}
    {b : Bool} (ha : (attributes &&& 0x0F == 0x0F) = false)
    (hdots : (e.newEntry nm r attributes).isDirectory = true →
      V.Dots t.disk r s.currentDirectoryCluster ∧
        ∀ j, 2 ≤ j → j < V.slots → (V.slot t.disk r j).isEnd = true)
    (hadd : (addEntryToDirectory s.currentDirectoryCluster nm r attributes).run e t
      = some (b, s₁)) :
    Fs.InTree (if b then s₁.flushed V else s₁.marked V r 0) V := by
  have hready := (outcome_of_insert he h.ready hr h0 ht hadd).ready h.ready
  obtain ⟨l, hl⟩ := h.tree.dirChain h.cwd
  cases b with
  | false =>
      rcases addEntryToDirectory_cases he (R := fun _ _ => True) (fun _ _ _ _ _ _ _ => trivial)
        (ht.ready h.ready).on h.ready.cwd trivial hadd with ⟨-, rfl⟩ | ⟨hb, -⟩
      · have hag := agrees_undone hr h0 ht
        refine ⟨hready, h.tree.congr hag, ?_⟩
        rw [if_neg (by decide), Fs.marked_cwd, ht.cwd]
        exact hag.isDir h.cwd
      · cases hb
  | true =>
      obtain ⟨l₁, l₂, c₀, j₀, hc⟩ := creates_of_addEntry he h.ready hl hr h0 ht ha hdots hadd
      refine ⟨hready, h.tree.create h.cwd hc, ?_⟩
      have hcwd : s₁.currentDirectoryCluster = s.currentDirectoryCluster := by
        rcases addEntryToDirectory_cases he (R := fun _ _ => True) (fun _ _ _ _ _ _ _ => trivial)
          (ht.ready h.ready).on h.ready.cwd trivial hadd with ⟨hb, -⟩ | ⟨-, i, c, j, -, -, -, -, -, rfl⟩
        · cases hb
        · exact ht.cwd
      rw [if_pos rfl, Fs.flushed_cwd, hcwd]
      exact hc.isDir_old h.cwd

/-- The first cluster of a new directory holds its dot entries. -/
theorem dots_takingDir (hs : s.Ready V) (e : Env) (hr : V.Has r) :
    V.Dots (s.takingDir V e r).disk r s.currentDirectoryCluster ∧
      ∀ j, 2 ≤ j → j < V.slots → (V.slot (s.takingDir V e r).disk r j).isEnd = true := by
  have hslots := V.two_lt_slots
  have hslot : ∀ j, j < V.slots → V.slot (s.takingDir V e r).disk r j
      = entryAt ((e.enter .init).dots r s.currentDirectoryCluster) j := by
    intro j hj
    unfold Volume.slots at hj
    rw [Fs.takingDir, Fs.withDisk_disk, V.slot_putCluster_same, if_pos (by omega)]
  have hdot := entryAt_dots (e.enter .init) r s.currentDirectoryCluster
  refine ⟨⟨fun j hj => ?_, ?_, ?_⟩, fun j hj hj' => ?_⟩
  · rw [hslot j (by omega), hdot j]
    rcases (show j = 0 ∨ j = 1 by omega) with rfl | rfl
    · exact DirEntry.not_isFree_of_isLive (newEntry_live _ _ (by decide))
    · exact DirEntry.not_isFree_of_isLive (newEntry_live _ _ (by decide))
  · intro _
    rw [hslot 0 (by omega), hdot 0]
    exact newEntry_start _ _ hr.lt_u32
  · intro _
    rw [hslot 1 (by omega), hdot 1]
    exact Or.inr (newEntry_start _ _ hs.cwd.lt_u32)
  · rw [hslot j hj', hdot j, if_neg (by omega), if_neg (by omega)]
    rfl

theorem inTree_createFile {s' : Fs} {b : Bool} (he : e.Reliable) (h : s.InTree V)
    {filename : List UInt8} (hrun : (fat32CreateFile filename).run e s = some (b, s')) :
    s'.InTree V := by
  rcases fat32CreateFile_cases he h.ready hrun with ⟨-, rfl⟩ | ⟨r, hr, h0, s₁, hadd, rfl⟩
  · exact h
  · refine inTree_of_insert (he.enter _) h hr h0 (Or.inl rfl) (by decide) (fun hdir => ?_) hadd
    -- a file is not a directory
    have hfile : ((e.enter .insert).newEntry filename r 0).isDirectory = false := by
      unfold Env.newEntry DirEntry.isDirectory
      rw [attr_newDirectoryEntry]
      rfl
    rw [hfile] at hdir
    cases hdir

theorem inTree_createDir {s' : Fs} {b : Bool} (he : e.Reliable) (h : s.InTree V)
    {dirname : List UInt8} (hrun : (fat32CreateDir dirname).run e s = some (b, s')) :
    s'.InTree V := by
  rcases fat32CreateDir_cases he h.ready hrun with ⟨-, rfl⟩ | ⟨r, hr, h0, s₁, hadd, rfl⟩
  · exact h
  · exact inTree_of_insert (he.enter _) h hr h0 (Or.inr ⟨_, rfl⟩) (by decide)
      (fun _ => dots_takingDir h.ready e hr) hadd

end create

/-! ## Deleting -/

/-- The entry at slot `j` of the first cluster of `cwd` can be deleted: it is not a dot entry,
nothing in the directory lies behind it, and if it is a directory, it has no entries. -/
structure Volume.Deletable (V : Volume) (d : Disk) (root cwd j : Nat) : Prop where
  notDot : ¬ IsDot root cwd cwd j
  behind : ∀ c i, V.Entry d cwd c i → c = cwd ∧ i ≤ j
  empty : (V.slot d cwd j).isDirectory = true →
    ∀ c i, ¬ V.Child d root (readStartCluster (V.slot d cwd j)) c i

section delete

variable {V : Volume} {s s' : Fs} {e : Env} {j : Nat}

theorem taken_isLive {accept : DirEntry → Bool} {x : DirEntry}
    (h : Taken skipDeletedLfn accept x) : x.isLive = true := by
  obtain ⟨h1, h2⟩ := Bool.or_eq_false_iff.mp h.2.1
  exact DirEntry.isLive_iff.mpr ⟨h.1, h1, h2⟩

theorem removes_of_deletes (he : e.Reliable) (h : s.InTree V) {nm : List UInt8}
    (hd : Deletes V e nm j s s')
    (hok : V.Deletable s.disk V.bs.rootCluster s.currentDirectoryCluster j) :
    ∃ lo, Removes V s.disk s'.disk V.bs.rootCluster s.currentDirectoryCluster j lo := by
  have hd' := hd
  obtain ⟨hfound, hhas, s₁, hfree, hfrees, rfl⟩ := hd'
  obtain ⟨l, hl⟩ := h.tree.dirChain h.cwd
  have hentry : V.Entry s.disk s.currentDirectoryCluster s.currentDirectoryCluster j :=
    (h.tree.entry_iff h.cwd hl).mpr ⟨hl.head_mem, hfound.lt, taken_isLive hfound.taken⟩
  have hchild : V.Child s.disk V.bs.rootCluster s.currentDirectoryCluster
      s.currentDirectoryCluster j := ⟨hentry, hok.notDot⟩
  obtain ⟨lo, hlo⟩ := h.tree.chains (some (s.currentDirectoryCluster, j))
    ⟨_, h.cwd, hchild⟩ hhas
  obtain ⟨b, s₂, hrun, ho⟩ := run_freeClusterChain (e.enter .free) h.ready hlo
  have hs₂ : s₂ = s₁ := by
    rw [Volume.start_some, hfree, Option.some.injEq, Prod.mk.injEq] at hrun
    exact hrun.2.symm
  subst hs₂
  have hready := (hfrees.ready h.ready).withDisk
    (V.putSlot s₂.disk s.currentDirectoryCluster j zeroEntry)
  refine ⟨lo, hchild, hlo, fun y hy => ?_, fun c hc i hi => ?_, hok.behind, hok.empty⟩
  · rw [fat_flushed hready, Fs.withDisk_disk, V.fat_putSlot _ _ hfound.lt hy.2,
      ho.fat ((he.enter .free).freesAll 0 lo) hy]
  · exact hd.slotAt h.ready hc hi

theorem inTree_deletes (he : e.Reliable) (h : s.InTree V) {nm : List UInt8}
    (hd : Deletes V e nm j s s')
    (hok : V.Deletable s.disk V.bs.rootCluster s.currentDirectoryCluster j) : s'.InTree V := by
  obtain ⟨lo, hrem⟩ := removes_of_deletes he h hd hok
  refine ⟨hd.ready h.ready, h.tree.remove h.cwd hrem, ?_⟩
  rw [hd.cwd]
  exact hrem.isDir_kept h.tree h.cwd h.cwd (hrem.cwd_ne h.tree h.cwd)

end delete

/-! ## Changing the directory -/

section change

variable {V : Volume} {s s' : Fs} {e : Env}

/-- On a well-formed chain `find_next_cluster` stays on it. -/
theorem Fs.Walks.mem (h : s.On V) {c c' : Nat} {l : List Nat} (hl : V.Chain s.disk c l)
    (hw : s.Walks c c') : c' ∈ l := by
  induction hw generalizing l with
  | here c => exact hl.head_mem
  | next hend hlt hw ih =>
      have hc := Volume.Chain.has hl hl.head_mem
      rw [nextCluster_eq h hc] at hlt ih
      cases hl with
      | last hs =>
          rw [nextOf, if_pos (Volume.link_eq_stop hs).2] at hlt
          exact absurd hlt (by decide)
      | cons hn hl =>
          obtain ⟨-, hfat, hlt', -⟩ := Volume.link_eq_next hn
          rw [nextOf, hfat, if_neg (by omega)] at ih
          exact List.mem_cons_of_mem _ (ih hl)

/-- In a directory of the tree, `find_next_cluster` fails, finds a directory of the tree, or
finds the 0 of a dot-dot entry. -/
theorem findNextCluster_isDir (he : e.Reliable) (h : s.On V) (t : Tree V s.disk V.bs.rootCluster)
    {dir v : Nat} {dirName : List UInt8} (hdir : V.IsDir s.disk V.bs.rootCluster dir)
    (hr : (findNextCluster dirName dir).run e s = some (v, s')) :
    s' = s ∧ (v = invalidCluster ∨ v = 0 ∨ V.IsDir s.disk V.bs.rootCluster v) := by
  obtain ⟨hs, hsearch⟩ := findNextCluster_cases he h hr
  rcases searchFrom_cases hsearch with hv | ⟨c, j, hw, hsees, hdirectory, -, rfl⟩
  · exact ⟨hs, Or.inl hv⟩
  · refine ⟨hs, Or.inr ?_⟩
    obtain ⟨l, hl⟩ := t.dirChain hdir
    have hc := hw.mem h hl
    have hhas := Volume.Chain.has hl hc
    obtain ⟨hj, hend, hskip⟩ := (sees_iff h hhas).mp hsees
    rw [dirSlot_eq h hhas hj] at hdirectory ⊢
    obtain ⟨h1, h2⟩ := Bool.or_eq_false_iff.mp hskip
    have hentry := (t.entry_iff hdir hl).mpr
      ⟨hc, hj, DirEntry.isLive_iff.mpr ⟨hend j (Nat.le_refl j), h1, h2⟩⟩
    by_cases hdot : Volume.IsDot V.bs.rootCluster dir c j
    · obtain ⟨hne, rfl, hj2⟩ := hdot
      cases hdir with
      | root => exact absurd rfl hne
      | @child parent c' j' hparent hchild hd =>
          obtain ⟨-, hself, hup⟩ := t.dots parent c' j' hparent hchild hd
          rcases (show j = 0 ∨ j = 1 by omega) with rfl | rfl
          · rw [hself hdirectory]
            exact Or.inr (.child hparent hchild hd)
          · rcases hup hdirectory with h0 | hp
            · exact Or.inl h0
            · rw [hp]
              exact Or.inr hparent
    · exact Or.inr (.child hdir ⟨hentry, hdot⟩ hdirectory)

/-- No component of the path leads through a dot-dot entry that says 0. -/
def CleanPath (e : Env) (s : Fs) : List (List UInt8) → Nat → Nat → Prop
  | [], _, _ => True
  | token :: rest, i, target =>
      ∀ v s', (findNextCluster token target).run (e.enter (.component i)) s = some (v, s') →
        v ≠ 0 ∧ (v ≠ invalidCluster → CleanPath e s rest (i + 1) v)

theorem followPath_isDir (he : e.Reliable) (h : s.On V) (t : Tree V s.disk V.bs.rootCluster)
    {path : List (List UInt8)} {i dir : Nat} {r : Option Nat}
    (hdir : V.IsDir s.disk V.bs.rootCluster dir) (hclean : CleanPath e s path i dir)
    (hr : (followPath path i dir).run e s = some (r, s')) :
    s' = s ∧ ∀ target, r = some target → V.IsDir s.disk V.bs.rootCluster target := by
  induction path generalizing i dir with
  | nil =>
      simp only [followPath, Prog.run_pure, Option.some.injEq, Prod.mk.injEq] at hr
      obtain ⟨rfl, rfl⟩ := hr
      refine ⟨rfl, fun target ht => ?_⟩
      rw [Option.some.injEq] at ht
      rwa [← ht]
  | cons token rest ih =>
      rw [followPath, Prog.run_bind_eq_some] at hr
      obtain ⟨v, s₁, h1, h2⟩ := hr
      rw [run_within] at h1
      obtain ⟨h0, hrest⟩ := hclean v s₁ h1
      obtain ⟨rfl, hv⟩ := findNextCluster_isDir (he.enter _) h t hdir h1
      rw [Prog.run_ite] at h2
      split at h2
      · simp only [Prog.run_pure, Option.some.injEq, Prod.mk.injEq] at h2
        obtain ⟨rfl, rfl⟩ := h2
        exact ⟨rfl, fun target ht => by cases ht⟩
      next hne => exact ih ((hv.resolve_left hne).resolve_left h0) (hrest hne) h2

theorem inTree_changeDirectory {b : Bool} (he : e.Reliable) (h : s.InTree V) {path : List UInt8}
    (hclean : CleanPath e s (pathTokens path) 0 (s.pathStart path))
    (hrun : (fat32ChangeDirectory path).run e s = some (b, s')) : s'.InTree V := by
  have hstart : V.IsDir s.disk V.bs.rootCluster (s.pathStart path) := by
    unfold Fs.pathStart
    split
    · rw [h.ready.on.boot]
      exact .root
    · exact h.cwd
  unfold fat32ChangeDirectory at hrun
  rw [Prog.run_bind, Prog.run_get, Option.bind_some] at hrun
  dsimp only at hrun
  rw [Prog.run_bind_eq_some] at hrun
  obtain ⟨r, s₁, h1, h2⟩ := hrun
  obtain ⟨rfl, htarget⟩ := followPath_isDir he h.ready.on h.tree hstart hclean h1
  cases r with
  | none =>
      simp only [Prog.run_pure, Option.some.injEq, Prod.mk.injEq] at h2
      rw [← h2.2]
      exact h
  | some target =>
      simp only [Prog.run_bind, Prog.run_modify, Option.bind_some, Prog.run_pure,
        Option.some.injEq, Prod.mk.injEq] at h2
      rw [← h2.2]
      have hdir := htarget target rfl
      exact ⟨⟨⟨h.ready.on.boot, h.ready.on.offset, h.ready.on.drive⟩, h.ready.info,
        h.tree.dirHas target hdir⟩, h.tree, hdir⟩

end change

/-! ## Runs -/

/-- The calls that change the tree or the place in it. -/
inductive TreeCall where
  | dir (op : DirOp) (nm : List UInt8)
  | changeDirectory (path : List UInt8)

/-- The function of the driver. -/
def TreeCall.call : TreeCall → Io Bool
  | .dir op nm => op.call nm
  | .changeDirectory path => fat32ChangeDirectory path

/-- What a call may leave behind. -/
def TreeCall.Leaves (c : TreeCall) (e : Env) (s s' : Fs) : Prop :=
  match c with
  | .dir op nm => op.Leaves nm e s s'
  | c => ∃ b, c.call.run e s = some (b, s')

/-- The condition on the state before a call: what a deletion finds and would free can be
deleted, `is_directory_empty` has room for what it reads, and a path does not lead through a dot-dot
entry that says 0. -/
def TreeCall.Careful (V : Volume) (e : Env) (s : Fs) : TreeCall → Prop
  | .dir .createFile _ => True
  | .dir .createDir _ => True
  | .dir .deleteFile nm => ∀ j, V.FoundAt s.disk s.currentDirectoryCluster nm j →
      V.Has (readStartCluster (V.slot s.disk s.currentDirectoryCluster j)) →
      V.Deletable s.disk V.bs.rootCluster s.currentDirectoryCluster j
  | .dir .deleteDir nm => DirOp.deleteDir.Fits V e nm s ∧
      ∀ j, V.FoundAt s.disk s.currentDirectoryCluster nm j →
        V.Has (readStartCluster (V.slot s.disk s.currentDirectoryCluster j)) →
        V.looksEmpty s.disk (readStartCluster (V.slot s.disk s.currentDirectoryCluster j)) = true →
        V.Deletable s.disk V.bs.rootCluster s.currentDirectoryCluster j
  | .changeDirectory path => CleanPath e s (pathTokens path) 0 (s.pathStart path)

/-- One call that meets the condition, and nothing fails in it. -/
def CarefulStep (V : Volume) (s s' : Fs) : Prop :=
  ∃ (c : TreeCall) (e : Env), e.Reliable ∧ c.Careful V e s ∧ c.Leaves e s s'

section runs

variable {V : Volume} {s s' : Fs}

theorem TreeCall.Careful.fits {e : Env} {op : DirOp} {nm : List UInt8}
    (hok : TreeCall.Careful V e s (.dir op nm)) : op.Fits V e nm s := by
  rintro rfl
  exact hok.1 rfl

/-- One call keeps the tree. -/
theorem CarefulStep.inTree (hstep : CarefulStep V s s') (h : s.InTree V) : s'.InTree V := by
  obtain ⟨c, e, he, hok, hl⟩ := hstep
  cases c with
  | changeDirectory path =>
      obtain ⟨b, hrun⟩ := hl
      exact inTree_changeDirectory he h hok hrun
  | dir op nm =>
      obtain ⟨b, hrun, -⟩ := DirOp.outcome_of_fits he h.ready hok.fits hl
      cases op with
      | createFile => exact inTree_createFile he h hrun
      | createDir => exact inTree_createDir he h hrun
      | deleteFile =>
          rcases fat32DeleteFile_cases he h.ready hrun with ⟨-, rfl⟩ | ⟨-, j, hd⟩
          · exact h
          · exact inTree_deletes he h hd (hok j hd.1 hd.2.1)
      | deleteDir =>
          rcases fat32DeleteDir_cases he h.ready hrun with ⟨-, rfl⟩ | ⟨-, j, hd, -, hempty⟩
          · exact h
          · exact inTree_deletes he h hd (hok.2 j hd.1 hd.2.1 hempty)

/-- **No leak and no cross-link.** From a well-formed volume, in every run whose calls all meet
the condition, every non-zero FAT entry belongs to the chain of exactly one owner after every
call. -/
theorem owned_of_carefulCalls (h : s.InTree V)
    (hrun : Relation.ReflTransGen (CarefulStep V) s s') : V.Owned s'.disk V.bs.rootCluster := by
  suffices hinv : s'.InTree V from hinv.tree.owned
  induction hrun with
  | refl => exact h
  | tail _ hstep ih => exact hstep.inTree ih

end runs

/-! ## Two files -/

section twoFiles

/-- Clusters 2 to 4 are the last ones of their chains, and the others are free. -/
theorem twoFilesFs_fat {c : Nat} (hc : c < 8) :
    (2 ≤ c → c ≤ 4 → smallVolume.link twoFilesFs.disk c = .stop) ∧
      (5 ≤ c → smallVolume.fat twoFilesFs.disk c = 0) := by
  revert c
  decide

theorem twoFilesFs_chain {c : Nat} (h2 : 2 ≤ c) (h4 : c ≤ 4) :
    smallVolume.Chain twoFilesFs.disk c [c] :=
  .last ((twoFilesFs_fat (by omega)).1 h2 h4)

theorem twoFilesFs_rootChain : smallVolume.Chain twoFilesFs.disk 2 [2] :=
  twoFilesFs_chain (Nat.le_refl 2) (by omega)

/-- The two files are the entries of the root. -/
theorem twoFilesFs_entry {c j : Nat} :
    smallVolume.Entry twoFilesFs.disk 2 c j ↔ c = 2 ∧ j < 2 := by
  have hlive : ∀ j, j < 2 → (smallVolume.slot twoFilesFs.disk 2 j).isLive = true := by
    intro j hj
    obtain ⟨hend, hkept, -⟩ := twoFilesFs_entries hj
    unfold skipDeletedLfn at hkept
    rw [Bool.or_eq_false_iff] at hkept
    exact DirEntry.isLive_iff.mpr ⟨hend, hkept⟩
  constructor
  · rintro ⟨l, hl, hlist, -⟩
    rw [hl.unique twoFilesFs_rootChain] at hlist
    obtain ⟨hc, hj⟩ := hlist.mem
    rw [List.mem_singleton] at hc
    subst hc
    refine ⟨rfl, ?_⟩
    by_contra hge
    have := hlist.head (by simp) 2 (by omega)
    rw [twoFilesFs_isEnd (Nat.le_refl 2) (by omega)] at this
    cases this
  · rintro ⟨rfl, hj⟩
    refine ⟨[2], twoFilesFs_rootChain, Or.inl ⟨rfl, ?_, fun i hi => ?_⟩,
      hlive j hj⟩
    · have := smallVolume.two_lt_slots
      omega
    · exact (DirEntry.isLive_iff.mp (hlive i (by omega))).1

theorem twoFilesFs_not_isDirectory {j : Nat} (hj : j < 2) :
    (smallVolume.slot twoFilesFs.disk 2 j).isDirectory = false :=
  (twoFilesFs_entries hj).2.2.2.1

theorem twoFilesFs_isDir {dir : Nat} (h : smallVolume.IsDir twoFilesFs.disk 2 dir) : dir = 2 := by
  induction h with
  | root => rfl
  | child _ hc hd ih =>
      subst ih
      obtain ⟨rfl, hj⟩ := twoFilesFs_entry.mp hc.1
      rw [twoFilesFs_not_isDirectory hj] at hd
      cases hd

theorem twoFilesFs_start {j : Nat} (hj : j < 2) :
    readStartCluster (smallVolume.slot twoFilesFs.disk 2 j) = j + 3 :=
  (twoFilesFs_entries hj).2.2.2.2

/-- The owners: the root with cluster 2, the files with clusters 3 and 4. -/
theorem twoFilesFs_owner {o : Option (Nat × Nat)} (h : smallVolume.Owner twoFilesFs.disk 2 o) :
    o = none ∨ ∃ j, j < 2 ∧ o = some (2, j) := by
  rcases o with _ | ⟨c, j⟩
  · exact Or.inl rfl
  · obtain ⟨dir, hdir, hc⟩ := h
    rw [twoFilesFs_isDir hdir] at hc
    obtain ⟨rfl, hj⟩ := twoFilesFs_entry.mp hc.1
    exact Or.inr ⟨j, hj, rfl⟩

theorem twoFilesFs_owns {o : Option (Nat × Nat)} {x : Nat} :
    smallVolume.Owns twoFilesFs.disk 2 o x ↔
      o = none ∧ x = 2 ∨ ∃ j, j < 2 ∧ o = some (2, j) ∧ x = j + 3 := by
  constructor
  · rintro ⟨ho, l, hl, hx⟩
    rcases twoFilesFs_owner ho with rfl | ⟨j, hj, rfl⟩
    · rw [hl.unique twoFilesFs_rootChain, List.mem_singleton] at hx
      exact Or.inl ⟨rfl, hx⟩
    · rw [Volume.start_some, twoFilesFs_start hj] at hl
      rw [hl.unique (twoFilesFs_chain (by omega) (by omega)), List.mem_singleton] at hx
      exact Or.inr ⟨j, hj, rfl, hx⟩
  · rintro (⟨rfl, rfl⟩ | ⟨j, hj, rfl, rfl⟩)
    · exact ⟨trivial, [2], twoFilesFs_rootChain, by simp⟩
    · refine ⟨⟨2, .root, twoFilesFs_entry.mpr ⟨rfl, hj⟩, fun hdot => hdot.1 rfl⟩, [j + 3], ?_,
        by simp⟩
      rw [Volume.start_some, twoFilesFs_start hj]
      exact twoFilesFs_chain (by omega) (by omega)

theorem twoFilesFs_tree : Tree smallVolume twoFilesFs.disk 2 where
  dirHas := by
    intro dir hd
    rw [twoFilesFs_isDir hd]
    decide
  chains := by
    intro o ho _
    rcases twoFilesFs_owner ho with rfl | ⟨j, hj, rfl⟩
    · exact ⟨[2], twoFilesFs_rootChain⟩
    · rw [Volume.start_some, twoFilesFs_start hj]
      exact ⟨[j + 3], twoFilesFs_chain (by omega) (by omega)⟩
  compact := by
    intro dir l hd hl c hc j hj hlive
    rw [twoFilesFs_isDir hd] at hl
    rw [hl.unique twoFilesFs_rootChain] at hc ⊢
    rw [List.mem_singleton] at hc
    subst hc
    have hj2 : j < 2 := by
      by_contra hge
      rw [show smallVolume.slots = 16 from rfl] at hj
      have := twoFilesFs_isEnd (by omega) hj
      rw [(DirEntry.isLive_iff.mp hlive).1] at this
      cases this
    obtain ⟨l', hl', hlist, -⟩ := twoFilesFs_entry.mpr (⟨rfl, hj2⟩ : (2 : Nat) = 2 ∧ j < 2)
    rwa [hl'.unique twoFilesFs_rootChain] at hlist
  dots := by
    intro dir c j hd hc hdirectory
    rw [twoFilesFs_isDir hd] at hc
    obtain ⟨rfl, hj⟩ := twoFilesFs_entry.mp hc.1
    rw [twoFilesFs_not_isDirectory hj] at hdirectory
    cases hdirectory
  owned := by
    intro x hx h0
    have hx8 : x < 8 := hx.2
    have hx2 : 2 ≤ x := hx.1
    have hx4 : x < 5 := by
      by_contra hge
      exact h0 ((twoFilesFs_fat hx8).2 (by omega))
    rcases (show x = 2 ∨ ∃ j, j < 2 ∧ x = j + 3 from by
      rcases Nat.eq_or_lt_of_le hx2 with h | h
      · exact Or.inl h.symm
      · exact Or.inr ⟨x - 3, by omega, by omega⟩) with rfl | ⟨j, hj, rfl⟩
    · refine ⟨none, twoFilesFs_owns.mpr (Or.inl ⟨rfl, rfl⟩), fun o ho => ?_⟩
      rcases twoFilesFs_owns.mp ho with ⟨rfl, -⟩ | ⟨j, -, -, hj⟩
      · rfl
      · omega
    · refine ⟨some (2, j), twoFilesFs_owns.mpr (Or.inr ⟨j, hj, rfl, rfl⟩), fun o ho => ?_⟩
      rcases twoFilesFs_owns.mp ho with ⟨-, hj⟩ | ⟨j', -, rfl, hj'⟩
      · omega
      · rw [show j' = j by omega]

theorem twoFilesFs_inTree : twoFilesFs.InTree smallVolume :=
  ⟨twoFilesFs_ready, twoFilesFs_tree, .root⟩

/-- Deleting B, which is the last entry, meets the condition. -/
theorem owned_of_carefulCalls_last : ∃ s',
    (fat32DeleteFile [0x42]).run quietEnv twoFilesFs = some (true, s') ∧
      smallVolume.Owned s'.disk 2 := by
  obtain ⟨s', hr⟩ := twoFilesFs_deleteB
  have hok : (TreeCall.dir .deleteFile [0x42]).Careful smallVolume quietEnv twoFilesFs := by
    intro j hj _
    have hj1 : j = 1 := hj.unique twoFilesFs_foundAt
    subst hj1
    refine ⟨fun hdot => hdot.1 rfl, fun c i he => ?_, fun hdirectory => ?_⟩
    · obtain ⟨hc, hi⟩ := twoFilesFs_entry.mp he
      exact ⟨hc, by omega⟩
    · rw [show twoFilesFs.currentDirectoryCluster = 2 from rfl,
        twoFilesFs_not_isDirectory (by omega)] at hdirectory
      cases hdirectory
  exact ⟨s', hr, owned_of_carefulCalls twoFilesFs_inTree
    (.single ⟨.dir .deleteFile [0x42], quietEnv, quietEnv_reliable, hok, .returned hr⟩)⟩

/-- Deleting A leaves cluster 4, which was B's, without an owner. -/
theorem delete_leaks_second : twoFilesFs.InTree smallVolume ∧ ∃ s',
    (fat32DeleteFile [0x41]).run quietEnv twoFilesFs = some (true, s') ∧
      ¬ smallVolume.Owned s'.disk 2 := by
  obtain ⟨s', hr, hfat, hlink, hend⟩ := twoFilesFs_deleteA
  refine ⟨twoFilesFs_inTree, s', hr, fun howned => ?_⟩
  -- the root lists nothing any more
  have hnone : ∀ c j, ¬ smallVolume.Entry s'.disk 2 c j := by
    rintro c j ⟨l, hl, hlist, -⟩
    rw [hl.unique (.last hlink)] at hlist
    have hc := hlist.mem.1
    rw [List.mem_singleton] at hc
    subst hc
    rw [hlist.head (by simp) 0 (by omega)] at hend
    cases hend
  have hdirs : ∀ dir, smallVolume.IsDir s'.disk 2 dir → dir = 2 := by
    intro dir hd
    induction hd with
    | root => rfl
    | child _ hc _ ih =>
        subst ih
        exact absurd hc.1 (hnone _ _)
  obtain ⟨o, ⟨ho, l, hl, hmem⟩, -⟩ := howned 4 (by decide) (by rw [hfat]; decide)
  rcases o with _ | ⟨c, j⟩
  · rw [hl.unique (.last hlink)] at hmem
    simp [Volume.start] at hmem
  · obtain ⟨dir, hdir, hc⟩ := ho
    rw [hdirs dir hdir] at hc
    exact hnone c j hc.1

end twoFiles

end MicroKernel.Fat32
