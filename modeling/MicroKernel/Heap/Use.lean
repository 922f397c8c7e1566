import MicroKernel.Heap.Invariant

set_option autoImplicit false

/-! # The heap in use

Between two calls the owners of the blocks write to them, and the rest of the kernel writes where
it likes. As long as nobody touches a header (`SparesHeaders`) the invariant of the heap does not
notice. `UseStep` is a step of such a run: a call served from the free list, or any other contents
of the memory around the headers.
-/

namespace MicroKernel.Heap

open MicroKernel.Lib Bytes

/-! ## Runs with writes in between -/

/-- The memory `m` has the headers of the heap `s`; the rest of it is arbitrary. -/
def SparesHeaders (s : State) (m : Bytes) : Prop :=
  ∀ bs, walk s.mem steps s.freeList = some bs →
    ∀ b ∈ bs, ∀ i, i < blockSize → m (b.addr + i) = s.mem (b.addr + i)

/-- A call served from the free list, or writes that spare the headers. -/
inductive UseStep (L : Layout) (r : Run) : Run → Prop
  | call {r' : Run} (h : ServedStep L r r') : UseStep L r r'
  | write {m : Bytes} (h : SparesHeaders r.heap m) : UseStep L r ⟨{ r.heap with mem := m }, r.live⟩

/-- Writing a byte that belongs to no header. -/
theorem UseStep.store {L : Layout} {r : Run} {a : Nat} (v : UInt8)
    (h : ∀ bs, walk r.heap.mem steps r.heap.freeList = some bs → OffHeaders bs a) :
    UseStep L r ⟨{ r.heap with mem := store8 r.heap.mem a v }, r.live⟩ := by
  refine .write fun bs hw b hb i hi => store8_ne _ v ?_
  have hoff := h bs hw b hb
  omega

/-- The flag of a block is in its header. -/
theorem freeAt_congr {m m' : Bytes} {a : Nat}
    (h : ∀ i, i < blockSize → m' (a + i) = m (a + i)) : freeAt m' a = freeAt m a :=
  load32_congr fun i hi => by
    have hbyte := h (4 + i) (by simp only [blockSize]; omega)
    rwa [← Nat.add_assoc] at hbyte

theorem Inv.write {L : Layout} {r : Run} {bs : List Block} (h : Inv L r bs) {m : Bytes}
    (hm : SparesHeaders r.heap m) : Inv L ⟨{ r.heap with mem := m }, r.live⟩ bs := by
  have hp := h.placed
  have hspare := hm bs (walk_eq h.seg hp.pos hp.length_lt)
  exact ⟨h.seg.congr hspare, h.tiled, h.coalesced, h.owned⟩

theorem Inv.flagged_write {L : Layout} {r : Run} {bs : List Block} (h : Inv L r bs) {m : Bytes}
    (hm : SparesHeaders r.heap m) (hf : Flagged r.heap.mem bs) : Flagged m bs := by
  have hp := h.placed
  have hspare := hm bs (walk_eq h.seg hp.pos hp.length_lt)
  intro b hb
  rw [freeAt_congr (hspare b hb)]
  exact hf b hb

/-- The flag that `initialize_memory_system` writes. -/
theorem freeAt_boot (L : Layout) (hL : L.totalMemory ≠ 0) (mem : Bytes) :
    freeAt (boot L mem).heap.mem L.freelistStart = 1 := by
  simp only [boot, initializeMemorySystem, if_neg hL]
  rw [freeAt, load32_store32_ne _ _ (by omega), load32_store32_same]
  rfl

/-- **The invariant over runs with writes in between**, and every flag is `0` or `1`. -/
theorem inv_used {L : Layout} (hL : L.totalMemory ≠ 0) {mem : Bytes} {r : Run}
    (h : Relation.ReflTransGen (UseStep L) (boot L mem) r) :
    ∃ bs, Inv L r bs ∧ Flagged r.heap.mem bs := by
  induction h with
  | refl =>
      refine ⟨_, inv_boot L hL mem, fun b hb => ?_⟩
      rw [List.mem_singleton.mp hb]
      exact Nat.le_of_eq (freeAt_boot L hL mem)
  | tail _ hstep ih =>
      obtain ⟨bs, hi, hf⟩ := ih
      cases hstep with
      | call hcall =>
          obtain ⟨c, hc, hs, hk⟩ := hcall
          obtain ⟨r', bs', hk', hi', hf'⟩ := hi.call hc hs
          rw [hk, Option.some.injEq] at hk'
          subst hk'
          exact ⟨bs', hi', hf' hf⟩
      | write hm => exact ⟨bs, hi.write hm, hi.flagged_write hm hf⟩

/-! ## The headers as they are in memory -/

/-- The words of a header, and where it is. -/
structure Header where
  addr : Nat
  size : Nat
  free : Nat
  next : Nat
  deriving DecidableEq

/-- The headers visited from `p` on. -/
def headers (m : Bytes) : Nat → Nat → Option (List Header)
  | 0, _ => none
  | k + 1, p =>
      if p = 0 then some []
      else (headers m k (nextAt m p)).map (⟨p, sizeAt m p, freeAt m p, nextAt m p⟩ :: ·)

/-- Two memories with the same block list and the same flags have the same headers. -/
theorem headers_eq {m m' : Bytes} {p : Nat} {bs : List Block} (hs : Seg m p bs 0)
    (hs' : Seg m' p bs 0) (hf : ∀ b ∈ bs, freeAt m' b.addr = freeAt m b.addr) (k : Nat) :
    headers m' k p = headers m k p := by
  induction bs generalizing p k with
  | nil =>
      obtain rfl : p = 0 := hs
      cases k <;> simp [headers]
  | cons b bs ih =>
      cases k with
      | zero => rfl
      | succ k =>
          obtain ⟨rfl, hsize, -, hrest⟩ := hs
          obtain ⟨-, hsize', -, hrest'⟩ := hs'
          have hnext : nextAt m' b.addr = nextAt m b.addr := hrest'.head.trans hrest.head.symm
          rw [hnext] at hrest'
          rw [headers, headers, hnext, ih hrest hrest' (fun c hc => hf c (by simp [hc])) k, hsize,
            hsize', hf b (by simp)]

/-- The walk over the headers of a list ends. -/
theorem exists_headers {m : Bytes} {p : Nat} {bs : List Block} (hs : Seg m p bs 0) {k : Nat}
    (hk : bs.length < k) : ∃ hdrs, headers m k p = some hdrs := by
  induction bs generalizing p k with
  | nil =>
      obtain ⟨k, rfl⟩ : ∃ k', k = k' + 1 := ⟨k - 1, by simp at hk; omega⟩
      obtain rfl : p = 0 := hs
      exact ⟨[], by simp [headers]⟩
  | cons b bs ih =>
      obtain ⟨k, rfl⟩ : ∃ k', k = k' + 1 := ⟨k - 1, by simp at hk; omega⟩
      obtain ⟨rfl, -, -, hrest⟩ := hs
      obtain ⟨hdrs, hh⟩ := ih hrest (k := k) (by simp at hk; omega)
      by_cases hb : b.addr = 0
      · exact ⟨[], by simp [headers, hb]⟩
      · exact ⟨_, by rw [headers, if_neg hb, hh, Option.map_some]⟩

end MicroKernel.Heap
