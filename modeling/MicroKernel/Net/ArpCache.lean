import MicroKernel.Lib.Slots
import MicroKernel.Net.Netstack

set_option autoImplicit false

/-! # The ARP cache over whole histories

The cache is a table of 32 slots (`Stack.slots`), `arp_lookup` is a lookup in it and
`arp_add_entry` a write to it; what an entry that is not valid still holds plays no role. A
history is a list of events: calls of `arp_add_entry`, and frames given to
`netstack_process_packet`, which add the sender of a well-formed ARP packet and leave the cache
alone otherwise (`ArpEvent.adds`).
-/

namespace MicroKernel.Net

open MicroKernel.Lib Bytes

/-! ## The cache as a table -/

/-- What an entry stands for. -/
def ArpCacheEntry.toSlot (e : ArpCacheEntry) : Option (UInt32 × Mac) :=
  if e.valid then some (e.ip, e.mac) else none

/-- The cache as a table. -/
def Stack.slots (s : Stack) : Slots UInt32 Mac := s.arpCache.toList.map ArpCacheEntry.toSlot

theorem hasKey_toSlot (ip : UInt32) (e : ArpCacheEntry) :
    Slots.hasKey ip e.toSlot = (e.valid && e.ip == ip) := by
  unfold ArpCacheEntry.toSlot
  cases e.valid with
  | false => rfl
  | true => simp [Slots.hasKey, Bool.beq_eq_decide_eq]

theorem slots_ne_nil (s : Stack) : s.slots ≠ [] := by
  intro h
  have hlen : s.slots.length = 32 := by
    rw [Stack.slots, List.length_map, Vector.length_toList]
    rfl
  rw [h] at hlen
  cases hlen

/-- `arp_lookup` looks the address up in the table. -/
theorem arpLookup_eq (s : Stack) (ip : UInt32) : arpLookup s ip = s.slots.find ip := by
  unfold arpLookup Stack.slots Slots.find
  rw [List.find?_map]
  have hpred : Slots.hasKey ip ∘ ArpCacheEntry.toSlot
      = fun e : ArpCacheEntry => e.valid && e.ip == ip := funext (hasKey_toSlot ip)
  rw [hpred]
  cases hfind : s.arpCache.toList.find? fun e => e.valid && e.ip == ip with
  | none => rfl
  | some e =>
      have hboth : (e.valid && e.ip == ip) = true := by
        have := List.find?_some hfind
        exact this
      have hvalid : e.valid = true := (Bool.and_eq_true_iff.mp hboth).1
      simp [ArpCacheEntry.toSlot, hvalid]

/-- The loop of `arp_add_entry`: the first slot of the address, else the slot in hand, else the
first empty slot. -/
theorem arpFindSlot_eq (ip : UInt32) (es : List ArpCacheEntry) (i : Nat) (slot : Option Nat) :
    arpFindSlot ip es i slot
      = (((es.map ArpCacheEntry.toSlot).findIdx? (Slots.hasKey ip)).map (i + ·)).or
          (slot.or (((es.map ArpCacheEntry.toSlot).findIdx? Option.isNone).map (i + ·))) := by
  induction es generalizing i slot with
  | nil => simp [arpFindSlot]
  | cons e es ih =>
      rw [arpFindSlot, List.map_cons, List.findIdx?_cons, List.findIdx?_cons, hasKey_toSlot]
      by_cases hkey : (e.valid && e.ip == ip) = true
      · simp [hkey]
      · -- the positions of the rest, counted from here
        have hshift : (fun j : Nat => i + j) ∘ (fun j => j + 1) = fun j => i + 1 + j := by
          funext j
          simp only [Function.comp_apply]
          omega
        rw [if_neg hkey, if_neg hkey, ih, Option.map_map, hshift]
        cases hv : e.valid with
        | true =>
            simp only [ArpCacheEntry.toSlot, hv, if_true, Bool.not_true, Bool.false_and,
              Bool.false_eq_true, if_false, Option.isNone_some, Option.map_map, hshift]
        | false =>
            cases slot with
            | none =>
                simp [ArpCacheEntry.toSlot, hv]
            | some j =>
                simp [ArpCacheEntry.toSlot, hv]

/-- `arp_add_entry` writes the address to the table. -/
theorem slots_arpAddEntry (s : Stack) (ip : UInt32) (mac : Mac) :
    (arpAddEntry s ip mac).slots = s.slots.put ip mac := by
  have hslot : (arpFindSlot ip s.arpCache.toList 0 none).getD 0 = s.slots.slot ip := by
    simp only [arpFindSlot_eq, Nat.zero_add, Option.map_id', Option.none_or]
    unfold Stack.slots Slots.slot
    cases (s.arpCache.toList.map ArpCacheEntry.toSlot).findIdx? (Slots.hasKey ip) with
    | none => rfl
    | some i => rfl
  unfold arpAddEntry Stack.slots Slots.put
  dsimp only
  rw [hslot, Vector.toList_setIfInBounds, List.map_set]
  rfl

/-- After `netstack_init` the table is empty. -/
theorem slots_netstackInit (s : Stack) (nicMac : Option Mac) :
    ∀ e ∈ (netstackInit s nicMac).slots, e = none := by
  intro e he
  simp only [Stack.slots, netstackInit, Vector.toList_map, List.map_map, List.mem_map,
    Function.comp_apply] at he
  obtain ⟨a, -, rfl⟩ := he
  rfl

/-! ## Events -/

/-- What can change the cache. -/
inductive ArpEvent where
  | add (ip : UInt32) (mac : Mac)
  | packet (p : Bytes) (length : UInt16)

/-- The stack after an event. -/
def ArpEvent.run (s : Stack) : ArpEvent → Stack
  | .add ip mac => arpAddEntry s ip mac
  | .packet p length => (netstackProcessPacket s p length).1

/-- The frame is for this machine and holds an ARP packet for Ethernet and IPv4. -/
def IsArp (s : Stack) (p : Bytes) (length : UInt16) : Prop :=
  42 ≤ length.toNat ∧ (macAt p 0 = broadcastMac ∨ macAt p 0 = s.netConfig.macAddress) ∧
    ntohs (field16 p 12) = 0x0806 ∧ ntohs (field16 p 14) = 1 ∧ ntohs (field16 p 16) = 0x0800 ∧
    p 18 = 6 ∧ p 19 = 4

instance (s : Stack) (p : Bytes) (length : UInt16) : Decidable (IsArp s p length) :=
  inferInstanceAs (Decidable (_ ∧ _))

/-- What an event adds to the cache: an ARP packet adds its sender. -/
def ArpEvent.adds (s : Stack) : ArpEvent → Option (UInt32 × Mac)
  | .add ip mac => some (ip, mac)
  | .packet p length =>
      if IsArp s p length then some (ntohl (field32 p 28), macAt p 22) else none

theorem arpCache_handleIcmpPacket (s : Stack) (p : Bytes) (a : Nat) (length : UInt16)
    (srcIp : UInt32) : (handleIcmpPacket s p a length srcIp).1.arpCache = s.arpCache := by
  unfold handleIcmpPacket icmpSendEchoReply
  split
  · rfl
  · split
    · split <;> rfl
    · rfl

theorem arpCache_handleIpPacket (s : Stack) (p : Bytes) (a : Nat) (length : UInt16) :
    (handleIpPacket s p a length).1.arpCache = s.arpCache := by
  unfold handleIpPacket
  split
  · rfl
  split
  · rfl
  split
  · rfl
  dsimp only
  split
  · rfl
  split
  · rfl
  split
  · exact arpCache_handleIcmpPacket _ _ _ _ _
  · rfl

theorem slots_congr {s s' : Stack} (h : s'.arpCache = s.arpCache) : s'.slots = s.slots := by
  unfold Stack.slots
  rw [h]

/-- What `handle_arp_packet` does to the cache. -/
theorem slots_handleArpPacket (s : Stack) (p : Bytes) (length : UInt16) :
    (handleArpPacket s p 14 length).1.slots
      = if 28 ≤ length.toNat ∧ ntohs (field16 p 14) = 1 ∧ ntohs (field16 p 16) = 0x0800 ∧
          p 18 = 6 ∧ p 19 = 4 then s.slots.put (ntohl (field32 p 28)) (macAt p 22)
        else s.slots := by
  have hlen : length < 28 ↔ ¬ 28 ≤ length.toNat := by
    rw [UInt16.lt_iff_toNat_lt]
    exact Nat.not_le.symm
  unfold handleArpPacket
  by_cases h1 : length < 28
  · rw [if_pos h1, if_neg (fun h => hlen.mp h1 h.1)]
  have h28 : 28 ≤ length.toNat := by
    by_contra h
    exact h1 (hlen.mpr h)
  rw [if_neg h1]
  by_cases h2 : ntohs (field16 p 14) ≠ 1 ∨ ntohs (field16 p (14 + 2)) ≠ 0x0800 ∨
      p (14 + 4) ≠ 6 ∨ p (14 + 5) ≠ 4
  · rw [if_pos h2, if_neg]
    rintro ⟨-, h3, h4, h5, h6⟩
    exact h2.elim (· h3) (·.elim (· h4) (·.elim (· h5) (· h6)))
  · have h3 : ntohs (field16 p 14) = 1 ∧ ntohs (field16 p 16) = 0x0800 ∧ p 18 = 6 ∧ p 19 = 4 := by
      simpa only [not_or, ne_eq, not_not] using h2
    rw [if_neg h2]
    refine Eq.trans ?_ (if_pos ⟨h28, h3⟩).symm
    rw [← slots_arpAddEntry]
    dsimp only
    split <;> rfl

/-- **What an event does to the cache.** -/
theorem ArpEvent.slots_run (s : Stack) (ev : ArpEvent) :
    (ev.run s).slots
      = match ev.adds s with
        | none => s.slots
        | some (ip, mac) => s.slots.put ip mac := by
  cases ev with
  | add ip mac => exact slots_arpAddEntry s ip mac
  | packet p length =>
      unfold ArpEvent.run ArpEvent.adds
      dsimp only
      by_cases hacc : Accepts s p length
      · rw [hacc.processPacket]
        by_cases harp : ntohs (field16 p 12) = 0x0806
        · -- the handler sees the frame without its first 14 bytes
          have hiff : IsArp s p length ↔ 28 ≤ (length - 14).toNat ∧ ntohs (field16 p 14) = 1 ∧
              ntohs (field16 p 16) = 0x0800 ∧ p 18 = 6 ∧ p 19 = 4 := by
            rw [hacc.payload_toNat]
            constructor
            · rintro ⟨hlen, -, -, hfields⟩
              exact ⟨by omega, hfields⟩
            · rintro ⟨hlen, hfields⟩
              exact ⟨by omega, hacc.2, harp, hfields⟩
          rw [if_pos harp, slots_handleArpPacket]
          simp only [hiff]
          split <;> rfl
        · have hnot : ¬ IsArp s p length := fun h => harp h.2.2.1
          rw [if_neg harp]
          simp only [hnot, if_false]
          split
          · exact slots_congr (arpCache_handleIpPacket s p 14 (length - 14))
          · rfl
      · have hnot : ¬ IsArp s p length := fun h => hacc ⟨by have := h.1; omega, h.2.1⟩
        rw [processPacket_of_not_accepts hacc, if_neg hnot]

/-! ## Histories -/

/-- The stack after a history. -/
def runEvents (s : Stack) (evs : List ArpEvent) : Stack := evs.foldl ArpEvent.run s

/-- The history adds `ip`. -/
def Adds (ip : UInt32) : Stack → List ArpEvent → Prop
  | _, [] => False
  | s, ev :: evs => (∃ mac, ev.adds s = some (ip, mac)) ∨ Adds ip (ev.run s) evs

/-- Adding `newIp` takes the slot of `ip`: `newIp` is not cached, every entry is valid, and `ip`
is in slot 0. -/
def Stack.Evicts (s : Stack) (newIp ip : UInt32) : Prop :=
  arpLookup s newIp = none ∧ (∀ e ∈ s.arpCache.toList, e.valid = true) ∧
    (s.arpCache.get ⟨0, by decide⟩).ip = ip

/-- Some add of the history takes the slot of `ip`. -/
def EvictsIn (ip : UInt32) : Stack → List ArpEvent → Prop
  | _, [] => False
  | s, ev :: evs =>
      (∃ newIp mac, ev.adds s = some (newIp, mac) ∧ s.Evicts newIp ip) ∨ EvictsIn ip (ev.run s) evs

/-- No two valid entries have the same address. -/
def Stack.Unique (s : Stack) : Prop :=
  s.arpCache.toList.Pairwise fun a b => a.valid = true → b.valid = true → a.ip ≠ b.ip

theorem unique_iff (s : Stack) : s.Unique ↔ s.slots.Distinct := by
  unfold Stack.Unique Stack.slots Slots.Distinct
  rw [List.pairwise_map]
  have hrel : (fun a b : ArpCacheEntry => a.valid = true → b.valid = true → a.ip ≠ b.ip)
      = fun a b => ∀ x ∈ a.toSlot, ∀ y ∈ b.toSlot, x.1 ≠ y.1 := by
    funext a b
    unfold ArpCacheEntry.toSlot
    cases a.valid with
    | false => simp
    | true => cases b.valid <;> simp
  rw [hrel]

theorem evicts_iff (s : Stack) (newIp ip : UInt32) :
    s.Evicts newIp ip ↔ s.slots.Evicts newIp ip := by
  have hhead : s.slots.head? = some (s.arpCache.get ⟨0, by decide⟩).toSlot := by
    rw [Stack.slots, List.head?_map, List.head?_eq_getElem?, Vector.getElem?_toList]
    rfl
  have hfull : (∀ e ∈ s.arpCache.toList, e.valid = true) ↔ none ∉ s.slots := by
    unfold Stack.slots
    rw [List.mem_map]
    constructor
    · rintro h ⟨e, he, hnone⟩
      rw [ArpCacheEntry.toSlot, if_pos (h e he)] at hnone
      cases hnone
    · intro h e he
      by_contra hv
      exact h ⟨e, he, by rw [ArpCacheEntry.toSlot, if_neg hv]⟩
  unfold Stack.Evicts Slots.Evicts
  rw [arpLookup_eq, hfull, hhead]
  refine and_congr_right fun _ => and_congr_right fun hf => ?_
  have hvalid : (s.arpCache.get ⟨0, by decide⟩).valid = true :=
    hfull.mpr hf _ (Vector.mem_toList_iff.mpr (Vector.getElem_mem _))
  simp [hasKey_toSlot, hvalid]

/-- Every history keeps the addresses distinct. -/
theorem runEvents_distinct {s : Stack} (hs : s.slots.Distinct) (evs : List ArpEvent) :
    (runEvents s evs).slots.Distinct := by
  induction evs generalizing s with
  | nil => exact hs
  | cons ev evs ih =>
      refine ih ?_
      rw [ArpEvent.slots_run]
      cases ev.adds s with
      | none => exact hs
      | some a => exact hs.put (slots_ne_nil s) a.1 a.2

/-- One event, seen from an address that it does not add. -/
theorem arpLookup_run {s : Stack} (hs : s.slots.Distinct) {ev : ArpEvent} {ip : UInt32}
    (hadd : ∀ mac, ev.adds s ≠ some (ip, mac)) :
    ((∃ newIp mac, ev.adds s = some (newIp, mac) ∧ s.Evicts newIp ip) →
      arpLookup (ev.run s) ip = none) ∧
    ((¬ ∃ newIp mac, ev.adds s = some (newIp, mac) ∧ s.Evicts newIp ip) →
      arpLookup (ev.run s) ip = arpLookup s ip) := by
  rw [arpLookup_eq, arpLookup_eq, ArpEvent.slots_run]
  constructor
  · rintro ⟨newIp, mac, hev, hevict⟩
    rw [hev]
    exact ((evicts_iff s newIp ip).mp hevict).find_put hs mac
  · intro hno
    cases hev : ev.adds s with
    | none => rfl
    | some a =>
        obtain ⟨newIp, mac⟩ := a
        have hne : newIp ≠ ip := by
          rintro rfl
          exact hadd mac hev
        refine Slots.find_put_ne (slots_ne_nil s) hne (fun h => hno ?_) mac
        exact ⟨newIp, mac, hev, (evicts_iff s newIp ip).mpr h⟩

/-- A history that does not add an address can only lose it. -/
theorem arpLookup_runEvents {s : Stack} (hs : s.slots.Distinct) {ip : UInt32}
    {evs : List ArpEvent} (hadd : ¬ Adds ip s evs) :
    (EvictsIn ip s evs → arpLookup (runEvents s evs) ip = none) ∧
      (¬ EvictsIn ip s evs → arpLookup (runEvents s evs) ip = arpLookup s ip) := by
  -- on the history; once the address is lost it is not found again, so it cannot be lost twice
  induction evs generalizing s with
  | nil => exact ⟨False.elim, fun _ => rfl⟩
  | cons ev evs ih =>
      have hev : ∀ mac, ev.adds s ≠ some (ip, mac) := fun mac h => hadd (Or.inl ⟨mac, h⟩)
      have hs' : (ev.run s).slots.Distinct := runEvents_distinct hs [ev]
      obtain ⟨hlost, hkept⟩ := arpLookup_run hs hev
      obtain ⟨ih1, ih2⟩ := ih hs' fun h => hadd (Or.inr h)
      constructor
      · rintro (h | h)
        · by_cases hlater : EvictsIn ip (ev.run s) evs
          · exact ih1 hlater
          · exact (ih2 hlater).trans (hlost h)
        · exact ih1 h
      · intro h
        exact (ih2 fun h' => h (Or.inr h')).trans (hkept fun h' => h (Or.inl h'))

theorem runEvents_append (s : Stack) (evs evs' : List ArpEvent) :
    runEvents s (evs ++ evs') = runEvents (runEvents s evs) evs' := List.foldl_append

/-- **The ARP cache over every history from `netstack_init`.** No two valid entries have the same
address. A lookup finds what was added last for the address, unless an add since then took its
slot; then it fails, as it does for an address that was never added. An add for one address
changes the lookup of another one only by taking its slot. -/
theorem arpCache_history (s₀ : Stack) (nicMac : Option Mac) (evs : List ArpEvent) :
    let start := netstackInit s₀ nicMac
    let s := runEvents start evs
    s.Unique ∧
    (∀ ip, ¬ Adds ip start evs → arpLookup s ip = none) ∧
    (∀ ip mac before ev after, evs = before ++ ev :: after →
      ev.adds (runEvents start before) = some (ip, mac) →
      ¬ Adds ip (ev.run (runEvents start before)) after →
        (EvictsIn ip (ev.run (runEvents start before)) after → arpLookup s ip = none) ∧
        (¬ EvictsIn ip (ev.run (runEvents start before)) after → arpLookup s ip = some mac)) ∧
    (∀ ip newIp mac, newIp ≠ ip →
        (s.Evicts newIp ip → arpLookup (arpAddEntry s newIp mac) ip = none) ∧
        (¬ s.Evicts newIp ip → arpLookup (arpAddEntry s newIp mac) ip = arpLookup s ip)) := by
  intro start s
  have hempty := slots_netstackInit s₀ nicMac
  have hstart : start.slots.Distinct := by
    refine List.pairwise_of_forall_mem_list fun a ha b _ x hx => ?_
    rw [hempty a ha] at hx
    cases hx
  have hs : s.slots.Distinct := runEvents_distinct hstart evs
  have hnone : ∀ ip, arpLookup start ip = none := by
    intro ip
    rw [arpLookup_eq, Slots.find_eq_none]
    intro e he
    rw [hempty e he]
    rfl
  refine ⟨(unique_iff s).mpr hs, ?_, ?_, ?_⟩
  · intro ip hadd
    obtain ⟨h1, h2⟩ := arpLookup_runEvents hstart hadd
    by_cases hev : EvictsIn ip start evs
    · exact h1 hev
    · exact (h2 hev).trans (hnone ip)
  · rintro ip mac before ev after rfl hev hadd
    -- right after the add the lookup finds `mac`; the rest of the history is `after`
    have hd : (ev.run (runEvents start before)).slots.Distinct :=
      runEvents_distinct (runEvents_distinct hstart before) [ev]
    have hfound : arpLookup (ev.run (runEvents start before)) ip = some mac := by
      rw [arpLookup_eq, ArpEvent.slots_run, hev]
      exact Slots.find_put_same (slots_ne_nil _) ip mac
    have hrun : s = runEvents (ev.run (runEvents start before)) after :=
      runEvents_append start before (ev :: after)
    rw [hrun]
    obtain ⟨h1, h2⟩ := arpLookup_runEvents hd hadd
    exact ⟨h1, fun h => (h2 h).trans hfound⟩
  · intro ip newIp mac hne
    have hother : ∀ mac', (ArpEvent.add newIp mac).adds s ≠ some (ip, mac') := by
      intro mac' h
      cases h
      exact hne rfl
    obtain ⟨h1, h2⟩ := arpLookup_run hs hother
    refine ⟨fun h => h1 ⟨newIp, mac, rfl, h⟩, fun h => h2 ?_⟩
    rintro ⟨newIp', mac', heq, hev⟩
    cases heq
    exact h hev

end MicroKernel.Net
