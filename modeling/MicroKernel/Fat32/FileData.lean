import MicroKernel.Fat32.Adapter
import MicroKernel.Fat32.Calls
import MicroKernel.Fat32.Chain
import MicroKernel.Vfs.ReadContract

set_option autoImplicit false

/-! # The bytes of a file

`read_file_data` follows the chain of a file and copies sector after sector into a buffer, until it
has as many bytes as it is asked for, the buffer is full or the chain ends. What it has copied is
then the beginning of the file: the bytes of the clusters of the chain, one cluster behind the other
(`run_readFileData`). `fat32_vfs_read` reads from the start of the file, whatever the offset is, and
`cluster_to_sector` sends the two clusters that are not counted to sector 0.
-/

namespace MicroKernel.Fat32

open MicroKernel.Lib Bytes

namespace Volume

variable (V : Volume)

/-- The bytes of a cluster. -/
def clusterSize : Nat := 512 * V.bs.sectorsPerCluster

/-- The bytes of the clusters `l`, one cluster behind the other. -/
def fileBytes (d : Disk) (l : List Nat) : Bytes :=
  joined V.clusterSize fun k => V.clusterBytes d (l.getD k 0)

/-- A cluster that is there. `get_total_clusters` does not count the last two of them. -/
def Exists (c : Nat) : Prop := 2 ≤ c ∧ c < V.total + 2

instance (c : Nat) : Decidable (V.Exists c) := inferInstanceAs (Decidable (_ ∧ _))

/-- Where the chain of a file goes after cluster `c`. -/
def fileLink (d : Disk) (c : Nat) : Link Nat :=
  if V.Exists c then if eocMin ≤ V.fat d c then .stop else .next (V.fat d c) else .broken

variable {V} {d : Disk} {c c' : Nat}

theorem exists_of_fileLink (h : V.fileLink d c ≠ .broken) : V.Exists c := by
  by_contra hno
  apply h
  unfold fileLink
  rw [if_neg hno]

theorem fileLink_eq_stop (h : V.fileLink d c = .stop) : 2 ≤ c ∧ eocMin ≤ V.fat d c := by
  have hc := exists_of_fileLink (d := d) (by rw [h]; exact fun hn => nomatch hn)
  unfold fileLink at h
  rw [if_pos hc] at h
  split at h
  next heoc => exact ⟨hc.1, heoc⟩
  next => cases h

theorem fileLink_eq_next (h : V.fileLink d c = .next c') :
    2 ≤ c ∧ V.fat d c = c' ∧ c' < eocMin := by
  have hc := exists_of_fileLink (d := d) (by rw [h]; exact fun hn => nomatch hn)
  unfold fileLink at h
  rw [if_pos hc] at h
  split at h
  next => cases h
  next heoc =>
    cases h
    exact ⟨hc.1, rfl, by omega⟩

/-- A byte of sector `i` of the cluster that comes behind the clusters `l₁`. -/
theorem fileBytes_sector {l₁ l₂ : List Nat} {c i k : Nat} (hi : i < V.bs.sectorsPerCluster)
    (hk : k < 512) :
    V.fileBytes d (l₁ ++ c :: l₂) (l₁.length * V.clusterSize + 512 * i + k)
      = Sector.bytes (d (V.dataPos c + i)) k := by
  have hin : 512 * i + k < V.clusterSize := by
    unfold clusterSize
    omega
  have hget : (l₁ ++ c :: l₂).getD l₁.length 0 = c := by simp
  unfold fileBytes
  rw [Nat.add_assoc, joined_apply _ hin, hget]
  unfold clusterBytes
  rw [show (512 * i + k) / 512 = i by omega, show (512 * i + k) % 512 = k by omega]

end Volume

section read

variable {V : Volume} {s : Fs} {e : Env} {bufferSize bytesToRead : Nat}

/-- One turn of the loop over the sectors of a cluster when there is something left to read: `now`
bytes of sector `i` are copied behind the `total` bytes that are there. -/
theorem run_readFileSectors_step (he : e.Reliable) {c : Nat} (hc : V.Has c) {n i total now : Nat}
    (hi : i < V.bs.sectorsPerCluster) (hnow : now = min 512 (min bytesToRead bufferSize - total))
    (hpos : 0 < now) (buffer : Bytes) :
    (readFileSectors (V.dataPos c) bufferSize bytesToRead (n + 1) i total buffer).run e s
      = if bytesToRead ≤ total + now then
          some ((true, total + now,
            copy buffer total (Sector.bytes (s.disk (V.dataPos c + i))) 0 now), s)
        else (readFileSectors (V.dataPos c) bufferSize bytesToRead n (i + 1) (total + now)
          (copy buffer total (Sector.bytes (s.disk (V.dataPos c + i))) 0 now)).run e s := by
  have hlt := V.dataPos_add_lt hc hi
  have hroom : ¬ (bufferSize < total + min (bytesToRead - total) 512 ∧ bufferSize ≤ total) := by
    omega
  have hcut : (if bufferSize < total + min (bytesToRead - total) 512 then bufferSize - total
      else min (bytesToRead - total) 512) = now := by
    split <;> omega
  -- the sector is read whole, and its first `now` bytes are copied
  have hcopy : ∀ junk, copy buffer total (copy junk 0 (Sector.bytes (s.disk (V.dataPos c + i))) 0 512)
      0 now = copy buffer total (Sector.bytes (s.disk (V.dataPos c + i))) 0 now := by
    intro junk
    funext x
    by_cases hx : total ≤ x ∧ x < total + now
    · rw [copy_inside _ _ _ hx.1 hx.2, copy_inside _ _ _ hx.1 hx.2,
        copy_inside _ _ _ (by omega) (by omega)]
      simp
    · rw [copy_outside _ _ _ (by omega), copy_outside _ _ _ (by omega)]
  rw [readFileSectors]
  dsimp only
  rw [Prog.run_ite, if_neg hroom]
  simp only [hcut]
  rw [Prog.run_ite, if_neg (show now ≠ 0 by omega), Prog.run_bind, run_uninitialised,
    Option.bind_some, Prog.run_bind, run_readSector, he.fails, Option.bind_some,
    u32_eq_self (show V.dataPos c + i < 2 ^ 32 by omega), Nat.mod_eq_of_lt hlt]
  simp only [Bool.false_eq_true, if_false, Bool.not_true, hcopy]
  rw [Prog.run_ite]
  rfl

/-- Nothing is read when the buffer has all the bytes that are asked for, or is full. -/
theorem run_readFileSectors_done {sectorNumber n i total : Nat}
    (ht : total = min bytesToRead bufferSize) (buffer : Bytes) :
    (readFileSectors sectorNumber bufferSize bytesToRead n i total buffer).run e s
      = some ((true, total, buffer), s) := by
  cases n with
  | zero => rfl
  | succ n =>
      rw [readFileSectors]
      dsimp only
      rw [Prog.run_ite]
      by_cases hroom : bufferSize < total + min (bytesToRead - total) 512 ∧ bufferSize ≤ total
      · rw [if_pos hroom]
        rfl
      · have hcut : (if bufferSize < total + min (bytesToRead - total) 512 then bufferSize - total
            else min (bytesToRead - total) 512) = 0 := by
          split <;> omega
        rw [if_neg hroom]
        simp only [hcut]
        rfl

/-- The loop over the sectors of the cluster behind the clusters `l₁`. -/
theorem run_readFileSectors (he : e.Reliable) {c : Nat} (hc : V.Has c) (l₁ l₂ : List Nat)
    {n i total : Nat} (hn : i + n = V.bs.sectorsPerCluster)
    (ht : total = min (min bytesToRead bufferSize) (l₁.length * V.clusterSize + 512 * i))
    (b₀ : Bytes) :
    (readFileSectors (V.dataPos c) bufferSize bytesToRead n i total
        (copy b₀ 0 (V.fileBytes s.disk (l₁ ++ c :: l₂)) 0 total)).run e s
      = some ((true, min (min bytesToRead bufferSize) ((l₁.length + 1) * V.clusterSize),
          copy b₀ 0 (V.fileBytes s.disk (l₁ ++ c :: l₂)) 0
            (min (min bytesToRead bufferSize) ((l₁.length + 1) * V.clusterSize))), s) := by
  have hend : (l₁.length + 1) * V.clusterSize
      = l₁.length * V.clusterSize + 512 * V.bs.sectorsPerCluster := by
    rw [Nat.add_mul, Nat.one_mul]
    rfl
  induction n generalizing i total with
  | zero => rw [readFileSectors, Prog.run_pure, ht, hend, ← hn, Nat.add_zero]
  | succ n ih =>
      have hi : i < V.bs.sectorsPerCluster := by omega
      rcases Nat.lt_or_ge (l₁.length * V.clusterSize + 512 * i) (min bytesToRead bufferSize) with
        hlt | hle
      · obtain ⟨now, hnow⟩ : ∃ now, now = min 512 (min bytesToRead bufferSize - total) := ⟨_, rfl⟩
        have hnext : total + now
            = min (min bytesToRead bufferSize) (l₁.length * V.clusterSize + 512 * (i + 1)) := by
          omega
        have hcopy : copy (copy b₀ 0 (V.fileBytes s.disk (l₁ ++ c :: l₂)) 0 total) total
            (Sector.bytes (s.disk (V.dataPos c + i))) 0 now
              = copy b₀ 0 (V.fileBytes s.disk (l₁ ++ c :: l₂)) 0 (total + now) := by
          refine copy_copy _ _ fun k hk => ?_
          rw [Nat.zero_add, Nat.zero_add, ht, Nat.min_eq_right (Nat.le_of_lt hlt),
            Volume.fileBytes_sector hi (by omega)]
        rw [run_readFileSectors_step he hc hi hnow (by omega), hcopy]
        split
        next hdone =>
          -- the last sector: everything that was asked for is there
          have hall : total + now
              = min (min bytesToRead bufferSize) ((l₁.length + 1) * V.clusterSize) := by omega
          rw [hall]
        next => exact ih (by omega) hnext
      · have hall : total
            = min (min bytesToRead bufferSize) ((l₁.length + 1) * V.clusterSize) := by omega
        rw [run_readFileSectors_done (by omega), ← hall]

/-- One turn of the loop along the chain: the cluster that comes behind the clusters `l₁`. -/
theorem run_readFileLoop_step (he : e.Reliable) (h : s.On V) {c : Nat} (hc : V.Has c)
    (l₁ l₂ : List Nat) {k j total : Nat} (hmore : total < bytesToRead)
    (ht : total = min (min bytesToRead bufferSize) (l₁.length * V.clusterSize)) (b₀ : Bytes) :
    ∃ total', total' = min (min bytesToRead bufferSize) ((l₁.length + 1) * V.clusterSize) ∧
      (readFileLoop bufferSize bytesToRead (k + 1) j c total
          (copy b₀ 0 (V.fileBytes s.disk (l₁ ++ c :: l₂)) 0 total)).run e s
        = if isEndOfClusterChain (nextOf (V.fat s.disk c)) = true ∨
              nextOf (V.fat s.disk c) = invalidCluster then
            some ((total', copy b₀ 0 (V.fileBytes s.disk (l₁ ++ c :: l₂)) 0 total'), s)
          else (readFileLoop bufferSize bytesToRead k (j + 1) (nextOf (V.fat s.disk c)) total'
            (copy b₀ 0 (V.fileBytes s.disk (l₁ ++ c :: l₂)) 0 total')).run e s := by
  have hstart : total
      = min (min bytesToRead bufferSize) (l₁.length * V.clusterSize + 512 * 0) := by simpa using ht
  have hrun := run_readFileSectors (s := s) (he.enter (.cluster j)) hc l₁ l₂ (Nat.zero_add _) hstart b₀
  refine ⟨_, rfl, ?_⟩
  rw [readFileLoop, Prog.run_ite, if_neg (by omega), Prog.run_bind, Prog.run_get, Option.bind_some]
  dsimp only
  rw [Prog.run_bind, run_within, clusterToSector_eq h hc, h.boot, hrun, Option.bind_some]
  dsimp only
  rw [Prog.run_ite, if_neg (by simp), Prog.run_bind, run_within, run_within,
    run_getNextClusterInChain _ h hc.2, ((he.enter _).enter _).fails, if_neg (by simp),
    Option.bind_some, Prog.run_ite]
  rfl

/-- The loop ends when everything is there. -/
theorem run_readFileLoop_done {k j c total : Nat} (hdone : bytesToRead ≤ total) (buffer : Bytes) :
    (readFileLoop bufferSize bytesToRead (k + 1) j c total buffer).run e s
      = some ((total, buffer), s) := by
  rw [readFileLoop, Prog.run_ite, if_pos hdone]
  rfl

/-- The clusters that the loop comes to are counted. It comes to a cluster if not all bytes have
been read before: those of the clusters before it are too few, or the buffer is too small. -/
def Volume.Counted (V : Volume) (l : List Nat) (bufferSize bytesToRead : Nat) : Prop :=
  ∀ j, j < l.length → (bufferSize < bytesToRead ∨ j * V.clusterSize < bytesToRead) →
    l.getD j 0 < V.total

/-- The loop along the chain, from the cluster behind the clusters `l₁` on. -/
theorem run_readFileLoop (he : e.Reliable) (h : s.On V) {c : Nat} (l₁ : List Nat) {l : List Nat}
    (hl : Lib.Chain (V.fileLink s.disk) c l) (hgood : V.Counted (l₁ ++ l) bufferSize bytesToRead)
    {k j total : Nat} (hk : l.length ≤ k)
    (ht : total = min (min bytesToRead bufferSize) (l₁.length * V.clusterSize)) (b₀ : Bytes) :
    (readFileLoop bufferSize bytesToRead k j c total
        (copy b₀ 0 (V.fileBytes s.disk (l₁ ++ l)) 0 total)).run e s
      = some ((min (min bytesToRead bufferSize) ((l₁ ++ l).length * V.clusterSize),
          copy b₀ 0 (V.fileBytes s.disk (l₁ ++ l)) 0
            (min (min bytesToRead bufferSize) ((l₁ ++ l).length * V.clusterSize))), s) := by
  -- nothing is left to read
  have hend : bytesToRead ≤ total →
      total = min (min bytesToRead bufferSize) ((l₁ ++ l).length * V.clusterSize) := by
    intro hdone
    rw [List.length_append, Nat.add_mul]
    omega
  -- the cluster at hand is one that the loop comes to
  have hcounted : ∀ {c l'}, l = c :: l' → total < bytesToRead → c < V.total := by
    rintro c l' rfl hmore
    have := hgood l₁.length (by simp) (by omega)
    simpa using this
  induction hl generalizing k j total l₁ with
  | @last c hs =>
      obtain ⟨k, rfl⟩ := Nat.exists_eq_add_of_le' hk
      rw [List.length_singleton]
      rcases Nat.lt_or_ge total bytesToRead with hmore | hdone
      · obtain ⟨hc, heoc⟩ := Volume.fileLink_eq_stop hs
        obtain ⟨total', ht', hrun⟩ := run_readFileLoop_step (k := k) (j := j) he h
          ⟨hc, hcounted rfl hmore⟩ l₁ [] hmore ht b₀
        rw [hrun, nextOf, if_pos heoc, if_pos (Or.inr rfl), ht', List.length_append,
          List.length_singleton]
      · rw [run_readFileLoop_done hdone, ← hend hdone]
  | @cons c c' l hs hl ih =>
      obtain ⟨k, rfl⟩ := Nat.exists_eq_add_of_le' hk
      rw [List.length_cons, ← Nat.add_assoc]
      rcases Nat.lt_or_ge total bytesToRead with hmore | hdone
      · obtain ⟨hc, hfat, hlt⟩ := Volume.fileLink_eq_next hs
        obtain ⟨total', ht', hrun⟩ := run_readFileLoop_step (k := k + l.length) (j := j) he h
          ⟨hc, hcounted rfl hmore⟩ l₁ l hmore ht b₀
        have hnext : nextOf (V.fat s.disk c) = c' := by
          rw [nextOf, hfat, if_neg (by omega)]
        -- the rest of the chain is behind one cluster more
        have hshift : l₁ ++ c :: l = (l₁ ++ [c]) ++ l := by simp
        rw [hrun, hnext, if_neg (fun hend => goes_on hlt hend.symm)]
        rw [hshift] at hgood ⊢
        have ht'' : total' = min (min bytesToRead bufferSize)
            ((l₁ ++ [c]).length * V.clusterSize) := by
          rw [ht', List.length_append, List.length_singleton]
        refine ih (l₁ ++ [c]) hgood (by omega) ht'' ?_ ?_
        · intro hdone
          rw [List.length_append, Nat.add_mul]
          omega
        · rintro c'' l' rfl hmore'
          have := hgood (l₁ ++ [c]).length (by simp) (by omega)
          simpa using this
      · rw [run_readFileLoop_done hdone, ← hend hdone]

/-- **`read_file_data`** along a chain, if the clusters that it comes to are counted: it returns the
least of what is asked for, the size of the buffer and the bytes of the clusters, and the bytes are
those of the clusters. -/
theorem run_readFileData (he : e.Reliable) (h : s.On V) {c : Nat} {l : List Nat}
    (hl : Lib.Chain (V.fileLink s.disk) c l) (hgood : V.Counted l bufferSize bytesToRead)
    (buffer : Bytes) {n : Nat}
    (hn : n = min (min bytesToRead bufferSize) (l.length * V.clusterSize)) :
    (readFileData c buffer bufferSize bytesToRead).run e s
      = some ((n, copy buffer 0 (V.fileBytes s.disk l) 0 n), s) := by
  have hzero : buffer = copy buffer 0 (V.fileBytes s.disk l) 0 0 := by
    funext x
    rw [copy_outside _ _ _ (by omega)]
  unfold readFileData
  rw [Prog.run_ite]
  by_cases hnone : bufferSize = 0 ∨ bytesToRead = 0
  · obtain rfl : n = 0 := by omega
    rw [if_pos hnone, ← hzero]
    rfl
  · have hlen : l.length ≤ V.total + 2 :=
      hl.length_le fun x hx => (Volume.exists_of_fileLink (hl.link_ne_broken hx)).2
    have hsteps : l.length ≤ steps := by
      have := V.total_lt
      unfold eocMin at this
      unfold steps
      omega
    have hstart : 0 = min (min bytesToRead bufferSize) (([] : List Nat).length * V.clusterSize) := by
      simp
    have hrun := run_readFileLoop (j := 0) he h [] hl hgood hsteps hstart buffer
    rw [List.nil_append, ← hzero, ← hn] at hrun
    rw [if_neg hnone, hrun]

end read

/-! ## `fat32_vfs_read` -/

/-- The node belongs to a file of the volume: its clusters, from the first one on, are `l` and have
room for the file. A file without bytes need not have a cluster. -/
structure Volume.HasFile (V : Volume) (d : Disk) (node : Vfs.Node sig) (l : List Nat) : Prop where
  type : node.type = .file
  chain : 0 < node.size → Lib.Chain (V.fileLink d) node.inode l
  room : node.size ≤ l.length * V.clusterSize

/-- The file of a node. -/
def Volume.file (V : Volume) (d : Disk) (node : Vfs.Node sig) (l : List Nat) : Vfs.File :=
  ⟨V.fileBytes d l, node.size⟩

/-- The calls that `fat32_vfs_read` answers rightly: those that have nothing to read, and those at
the start of the file whose clusters `get_total_clusters` counts. -/
def ReadsRight (V : Volume) (node : Vfs.Node sig) (l : List Nat) (offset size : Nat) : Prop :=
  size = 0 ∨ node.size = 0 ∨
    (offset = 0 ∧ ∀ j, j * V.clusterSize < min size node.size → l.getD j 0 < V.total)

section vfs

variable {V : Volume} {e : Env} {g : Fs} {node : Vfs.Node sig} {l : List Nat}

theorem fat32VfsRead_answers (he : e.Reliable)
    (h : Fs.On { g with currentDrive := node.fs.drive } V)
    (hf : V.HasFile (g.disks node.fs.drive) node l) {offset size : Nat}
    (hright : ReadsRight V node l offset size) (buffer : Bytes) :
    ∃ r s', (Adapter.fat32VfsRead node offset size buffer).run e g = some (r, s') ∧
      (V.file (g.disks node.fs.drive) node l).Answers offset size r := by
  have hmin : (if size < node.size then size else node.size) = min size node.size := by
    split <;> omega
  have hrun : ∀ n b s', (readFileData node.inode buffer size (min size node.size)).run e
      { g with currentDrive := node.fs.drive } = some ((n, b), s') →
      (Adapter.fat32VfsRead node offset size buffer).run e g = some ((.ok n, b), s') := by
    intro n b s' hr
    unfold Adapter.fat32VfsRead
    rw [Prog.run_ite, if_neg (by simp [hf.type]), hmin, Prog.run_bind]
    change Option.bind (some ((), { g with currentDrive := node.fs.drive })) _ = _
    rw [Option.bind_some]
    dsimp only
    rw [Prog.run_bind, hr]
    rfl
  -- `read_file_data` returns at once when there is nothing to read, whatever the offset
  by_cases hnone : size = 0 ∨ node.size = 0
  · refine ⟨(.ok 0, buffer), _, hrun 0 buffer { g with currentDrive := node.fs.drive } ?_,
      Vfs.File.answers_zero ?_ buffer⟩
    · unfold readFileData
      rw [Prog.run_ite, if_pos (by omega)]
      rfl
    · change size = 0 ∨ node.size ≤ offset
      omega
  · obtain ⟨rfl, hgood⟩ : offset = 0 ∧
        ∀ j, j * V.clusterSize < min size node.size → l.getD j 0 < V.total := by
      rcases hright with h0 | h0 | h0
      · exact absurd (Or.inl h0) hnone
      · exact absurd (Or.inr h0) hnone
      · exact h0
    have hroom := hf.room
    have hcounted : V.Counted l size (min size node.size) := fun j _ hj => hgood j (by omega)
    have hread := run_readFileData he h (hf.chain (by omega)) hcounted buffer
      (n := min size node.size) (by omega)
    exact ⟨_, _, hrun _ _ _ hread, rfl, filled_copy _ _ _ _⟩

end vfs

end MicroKernel.Fat32
