import MicroKernel.Fat32.FileData
import MicroKernel.Fat32.Image

set_option autoImplicit false

/-! # Reading along a chain

What `read_file_data` returns for a well-formed chain, whichever of the request, the buffer and the
chain ends the read, in terms of the clusters of the chain.
-/

namespace MicroKernel.Fat32

open MicroKernel.Lib Bytes

namespace Volume

variable (V : Volume) (d : Disk)

/-- The bytes of the clusters `l`, as a list. -/
def chainBytes (l : List Nat) : List UInt8 :=
  l.flatMap fun c => first (V.clusterBytes d c) V.clusterSize

variable {V d} {c : Nat} {l : List Nat}

theorem first_fileBytes {n : Nat} (hn : n ≤ l.length * V.clusterSize) :
    first (V.fileBytes d l) n = (V.chainBytes d l).take n := by
  have hclusters : (List.range l.length).map (fun k => l.getD k 0) = l := by
    refine List.ext_getElem (by simp) fun i h1 h2 => ?_
    simp [List.getD_eq_getElem?_getD, List.getElem?_eq_getElem h2]
  have hall : first (V.fileBytes d l) (l.length * V.clusterSize) = V.chainBytes d l := by
    rw [fileBytes, first_joined, chainBytes]
    conv_rhs => rw [← hclusters, List.flatMap_map]
  rw [← hall, take_first _ hn]

/-- A well-formed chain of clusters that are counted is one of clusters that exist. -/
theorem Chain.fileLink (h : V.Chain d c l) : Lib.Chain (V.fileLink d) c l := by
  refine h.congr fun x hx => ?_
  have hhas := Chain.has h hx
  have hnz := Chain.fat_ne_zero h hx
  have hexists : V.Exists x := ⟨hhas.1, by have := hhas.2; omega⟩
  unfold Volume.fileLink link
  rw [if_pos hexists, if_pos hhas, if_neg hnz]

theorem Chain.counted (h : V.Chain d c l) (bufferSize bytesToRead : Nat) :
    V.Counted l bufferSize bytesToRead := by
  intro j hj _
  have hmem : l.getD j 0 ∈ l := by
    rw [List.getD_eq_getElem?_getD, List.getElem?_eq_getElem hj]
    exact List.getElem_mem hj
  exact (Chain.has h hmem).2

end Volume

/-- **`read_file_data` along a well-formed chain** returns the least of the request, the size of the
buffer and the bytes of the clusters. The buffer then begins with that many bytes of the clusters in
their order, and is as it was behind them. -/
theorem readFileData_chain {V : Volume} {s : Fs} {e : Env} (he : e.Reliable) (h : s.On V) {c : Nat}
    {l : List Nat} (hl : V.Chain s.disk c l) (buffer : Bytes) {bufferSize bytesToRead n : Nat}
    (hn : n = min (min bytesToRead bufferSize) (l.length * V.clusterSize)) :
    ∃ buffer', (readFileData c buffer bufferSize bytesToRead).run e s = some ((n, buffer'), s) ∧
      first buffer' n = (V.chainBytes s.disk l).take n ∧ ∀ x, n ≤ x → buffer' x = buffer x := by
  refine ⟨_, run_readFileData he h (Volume.Chain.fileLink hl) (Volume.Chain.counted hl _ _) buffer hn,
    ?_, fun x hx => copy_outside _ _ _ (Or.inr (by omega))⟩
  rw [(filled_copy buffer (V.fileBytes s.disk l) 0 n).first_eq, Volume.first_fileBytes (by omega)]

/-! ### A file of three clusters -/

/-- The small volume with the chain 2, 4, 3. The bytes of a cluster are its number. -/
def threeClusterFs : Fs :=
  smallFs (fun c => if c = 2 then 4 else if c = 4 then 3 else if c = 3 then eocMax else 0)
    (fun c _ _ => UInt8.ofNat c) (fun _ => 0)

theorem threeClusterFs_on : threeClusterFs.On smallVolume := ⟨rfl, rfl, rfl⟩

theorem threeClusterFs_chain : smallVolume.Chain threeClusterFs.disk 2 [2, 4, 3] :=
  .cons (by decide) (.cons (by decide) (.last (by decide)))

/-- The buffer ends the read, in the middle of the second cluster. -/
theorem readFileData_chain_buffer : ∃ buffer',
    (readFileData 2 (fun _ => 0xFF) 700 2000).run quietEnv threeClusterFs
      = some ((700, buffer'), threeClusterFs) ∧
    first buffer' 700 = (smallVolume.chainBytes threeClusterFs.disk [2, 4, 3]).take 700 ∧
    ∀ x, 700 ≤ x → buffer' x = 0xFF :=
  readFileData_chain quietEnv_reliable threeClusterFs_on threeClusterFs_chain _ rfl

end MicroKernel.Fat32
