import MicroKernel.Lib.CArray
import MicroKernel.Lib.Pieces
import MicroKernel.Libc.String

set_option autoImplicit false

/-! # Splitting a command line (`kernel/shell/command.c`)

`split_input` cuts a line into a command and arguments. A word that is too long for its buffer is cut,
and goes on as the next argument. The pieces lie in the line one behind the other, with spaces only
between them (`Lib.Pieces`), and so nothing of the line is lost as long as there is room for
arguments.

The cells from `input[i]` on stand for the cursor `i`. The blocks that `malloc` returns are a
parameter: what the call for argument `k` returns, if it does not return `NULL`.
-/

namespace MicroKernel.Shell

open MicroKernel.Lib CArray

/-- The loops that skip spaces. -/
def skipSpaces : List UInt8 → Option (List UInt8)
  | [] => none
  | c :: input => if c = 0x20 ∧ c ≠ 0 then skipSpaces input else some (c :: input)

/-- The loops that copy a word to `dest[j]` and behind, with a zero behind it: the array, and what has
not been copied. -/
def copyWord (maxLength : Int) : List UInt8 → List UInt8 → Int → Option (List UInt8 × List UInt8)
  | [], _, _ => none
  | c :: input, dest, j =>
      if c ≠ 0x20 ∧ c ≠ 0 ∧ j < maxLength - 1 then do
        let dest ← write dest j c
        copyWord maxLength input dest (j + 1)
      else do
        let dest ← write dest j 0
        some (dest, c :: input)

/-- The loop over the arguments, of which at most `n` more are made. When there is no memory the
arguments are freed again, and the result is -1. -/
def splitArguments (malloc : Nat → Option (List UInt8)) (maxLength : Int) :
    Nat → List UInt8 → List (List UInt8) → Option (Int × List (List UInt8))
  | _, [], _ => none
  | 0, _ :: _, arguments => some (arguments.length, arguments)
  | n + 1, c :: input, arguments =>
      if c = 0 then some (arguments.length, arguments)
      else
        match malloc arguments.length with
        | none => some (-1, [])
        | some block => do
            let (block, input) ← copyWord maxLength (c :: input) block 0
            let input ← skipSpaces input
            splitArguments malloc maxLength n input (arguments ++ [block])

/-- `split_input`: its result, the array of the command, and the arguments. -/
def splitInput (malloc : Nat → Option (List UInt8)) (input command : List UInt8)
    (maxLength maxArgs : Int) : Option (Int × List UInt8 × List (List UInt8)) := do
  let input ← skipSpaces input
  let (command, input) ← copyWord maxLength input command 0
  let input ← skipSpaces input
  let (argCount, arguments) ← splitArguments malloc maxLength maxArgs.toNat input []
  some (argCount, command, arguments)

/-! ## What the splitting should be -/

/-- The separator of words. -/
def isSpace (c : UInt8) : Bool := c == 0x20

/-- The line `s` is split into the command and the arguments. -/
structure SplitsInto (s : List UInt8) (maxLength maxArgs : Int) (command : List UInt8)
    (arguments : List (List UInt8)) : Prop where
  no_space : ∀ p ∈ command :: arguments, 0x20 ∉ p
  length_le : ∀ p ∈ command :: arguments, (p.length : Int) ≤ maxLength - 1
  ne_nil : ∀ a ∈ arguments, a ≠ []
  count_le : (arguments.length : Int) ≤ max maxArgs 0
  isPrefix : (command :: arguments).flatten <+: withoutSep isSpace s
  eq : (arguments.length : Int) < maxArgs →
    (command :: arguments).flatten = withoutSep isSpace s
  apart : ∀ a b, s = a ++ 0x20 :: b → ∃ ps₁ ps₂, command :: arguments = ps₁ ++ ps₂ ∧
    ps₁.flatten <+: withoutSep isSpace a ∧ ps₂.flatten <+: withoutSep isSpace b

/-! ## The loops -/

section loops

variable {s rest : List UInt8} {maxLength : Int}

theorem whole_iff {p : List UInt8} : Whole isSpace p ↔ 0x20 ∉ p := by
  unfold Whole isSpace
  constructor
  · intro h hmem
    have := h _ hmem
    simp at this
  · intro h c hc
    rw [beq_eq_false_iff_ne]
    rintro rfl
    exact h hc

/-- Spaces are skipped up to a character that is none, or to the end. -/
theorem skipSpaces_spec (hs : 0 ∉ s) (rest : List UInt8) :
    ∃ gap s', s = gap ++ s' ∧ (∀ c ∈ gap, isSpace c = true) ∧ s'.head? ≠ some 0x20 ∧
      skipSpaces (s ++ 0 :: rest) = some (s' ++ 0 :: rest) := by
  induction s with
  | nil => exact ⟨[], [], rfl, by simp, by simp, by simp [skipSpaces]⟩
  | cons c s ih =>
      rw [List.mem_cons, not_or] at hs
      by_cases hc : c = 0x20
      · obtain ⟨gap, s', rfl, hgap, hhead, hskip⟩ := ih hs.2
        refine ⟨c :: gap, s', rfl, ?_, hhead, ?_⟩
        · intro x hx
          rcases List.mem_cons.mp hx with rfl | hx
          · simp [isSpace, hc]
          · exact hgap x hx
        · rw [List.cons_append, skipSpaces, if_pos ⟨hc, Ne.symm hs.1⟩, hskip]
      · refine ⟨[], c :: s, rfl, by simp, by simpa using hc, ?_⟩
        rw [List.cons_append, skipSpaces, if_neg fun h => hc h.1]

/-- A word is copied up to a space, to the end, or until the array has room for the zero only. -/
theorem copyWord_spec (hs : 0 ∉ s) (rest done : List UInt8) {tail : List UInt8} {room : Nat}
    (hroom : maxLength - 1 = done.length + room) (htail : room < tail.length) :
    ∃ w s' junk, s = w ++ s' ∧ 0x20 ∉ w ∧ 0 ∉ w ∧ w.length ≤ room ∧
      (s' = [] ∨ s'.head? = some 0x20 ∨ w.length = room) ∧
      copyWord maxLength (s ++ 0 :: rest) (done ++ tail) done.length
        = some (done ++ (w ++ 0 :: junk), s' ++ 0 :: rest) := by
  induction s generalizing done tail room with
  | nil =>
      obtain ⟨x, tail, rfl⟩ := List.exists_cons_of_length_pos (Nat.zero_lt_of_lt htail)
      refine ⟨[], [], tail, rfl, by simp, by simp, Nat.zero_le _, Or.inl rfl, ?_⟩
      rw [List.nil_append, copyWord, if_neg (by simp), write_at rfl rfl]
      rfl
  | cons c s ih =>
      rw [List.mem_cons, not_or] at hs
      obtain ⟨x, tail, rfl⟩ := List.exists_cons_of_length_pos (Nat.zero_lt_of_lt htail)
      by_cases hgo : c ≠ 0x20 ∧ 0 < room
      · -- the character is copied, and there is room for one less
        obtain ⟨room, rfl⟩ := Nat.exists_eq_add_of_lt hgo.2
        rw [Nat.zero_add] at hroom htail
        have hroom' : maxLength - 1 = (done ++ [c]).length + room := by
          rw [hroom, List.length_append, List.length_singleton]
          push_cast
          ring
        have htail' : room < tail.length := by simpa using htail
        obtain ⟨w, s', junk, rfl, hspace, hzero, hlen, hend, hcopy⟩ :=
          ih hs.2 (done ++ [c]) hroom' htail'
        refine ⟨c :: w, s', junk, rfl, ?_, ?_, ?_, ?_, ?_⟩
        · simpa using ⟨Ne.symm hgo.1, hspace⟩
        · simpa using ⟨hs.1, hzero⟩
        · simpa using hlen
        · simpa using hend
        · have hj : (done.length : Int) + 1 = (done ++ [c]).length := by simp
          rw [List.cons_append, copyWord, if_pos ⟨hgo.1, Ne.symm hs.1, by rw [hroom]; push_cast; omega⟩,
            write_at rfl rfl]
          simp only [Option.bind_eq_bind, Option.bind_some]
          rw [hj, show done ++ c :: tail = done ++ [c] ++ tail by simp, hcopy]
          simp
      · refine ⟨[], c :: s, tail, rfl, by simp, by simp, Nat.zero_le _, ?_, ?_⟩
        · by_cases hc : c = 0x20
          · exact Or.inr (Or.inl (by rw [hc]; rfl))
          · exact Or.inr (Or.inr (Eq.symm (Nat.le_zero.mp (Nat.not_lt.mp fun h => hgo ⟨hc, h⟩))))
        · have hstop : ¬ (c ≠ 0x20 ∧ c ≠ 0 ∧ (done.length : Int) < maxLength - 1) := by
            rintro ⟨h1, -, h2⟩
            exact hgo ⟨h1, by rw [hroom] at h2; omega⟩
          rw [List.cons_append, copyWord, if_neg hstop, write_at rfl rfl]
          rfl

/-- The whole array is there for the word. -/
theorem copyWord_start (hs : 0 ∉ s) (rest : List UInt8) {dest : List UInt8} (hmax : 2 ≤ maxLength)
    (hdest : maxLength ≤ dest.length) :
    ∃ w s' dest', s = w ++ s' ∧ 0x20 ∉ w ∧ (w.length : Int) ≤ maxLength - 1 ∧
      (s.head? ≠ some 0x20 → w = [] → s = []) ∧ Libc.text dest' = w ∧
      copyWord maxLength (s ++ 0 :: rest) dest 0 = some (dest', s' ++ 0 :: rest) := by
  have hroom : maxLength - 1 = ([] : List UInt8).length + (maxLength - 1).toNat := by
    rw [List.length_nil]
    omega
  have htail : (maxLength - 1).toNat < dest.length := by omega
  obtain ⟨w, s', junk, rfl, hspace, hzero, hlen, hend, hcopy⟩ :=
    copyWord_spec hs rest [] hroom htail
  refine ⟨w, s', w ++ 0 :: junk, rfl, hspace, by omega, ?_, Libc.text_eq hzero, hcopy⟩
  rintro hhead rfl
  rcases hend with rfl | hend | hend
  · rfl
  · exact absurd hend hhead
  · simp only [List.length_nil] at hend
    omega

/-- The loop over the arguments, from a place where no space is. -/
theorem splitArguments_spec {malloc : Nat → Option (List UInt8)} (hmax : 2 ≤ maxLength)
    (hmalloc : ∀ k, ∃ block, malloc k = some block ∧ maxLength ≤ block.length) (n : Nat)
    (hs : 0 ∉ s) (hhead : s.head? ≠ some 0x20) (rest : List UInt8)
    (arguments : List (List UInt8)) :
    ∃ new left, splitArguments malloc maxLength n (s ++ 0 :: rest) arguments
        = some (((arguments ++ new).length : Int), arguments ++ new) ∧
      Pieces isSpace s (new.map Libc.text) left ∧ new.length ≤ n ∧
      (new.length < n → withoutSep isSpace left = []) ∧
      ∀ a ∈ new.map Libc.text, 0x20 ∉ a ∧ (a.length : Int) ≤ maxLength - 1 ∧ a ≠ [] := by
  induction n generalizing s arguments with
  | zero =>
      refine ⟨[], s, ?_, .nil s, Nat.le_refl _, by simp, by simp⟩
      cases s <;> simp [splitArguments]
  | succ n ih =>
      cases s with
      | nil =>
          exact ⟨[], [], by simp [splitArguments], .nil _, Nat.zero_le _, fun _ => rfl, by simp⟩
      | cons c s =>
          have hc : c ≠ 0 := by
            rintro rfl
            exact hs List.mem_cons_self
          obtain ⟨block, hblock, hroom⟩ := hmalloc arguments.length
          obtain ⟨w, s', block', hsplit, hspace, hlen, hne, htext, hcopy⟩ :=
            copyWord_start hs rest hmax hroom
          have hs' : 0 ∉ s' := fun h => hs (by rw [hsplit]; exact List.mem_append_right _ h)
          obtain ⟨gap, s'', rfl, hgap, hhead'', hskip⟩ := skipSpaces_spec hs' rest
          have hs'' : 0 ∉ s'' := fun h => hs' (List.mem_append_right _ h)
          obtain ⟨new, left, hloop, hpieces, hcount, hall, hnew⟩ :=
            ih hs'' hhead'' (arguments ++ [block'])
          obtain ⟨left', hpieces', hleft⟩ := hpieces.gap hgap
          have happend : arguments ++ [block'] ++ new = arguments ++ block' :: new := by simp
          refine ⟨block' :: new, left', ?_, ?_, Nat.succ_le_succ hcount, ?_, ?_⟩
          · rw [List.cons_append, splitArguments, if_neg hc, hblock]
            rw [List.cons_append] at hcopy
            simp only [Option.bind_eq_bind, Option.bind_some, hcopy, hskip, hloop, happend]
          · rw [hsplit, List.map_cons, htext]
            have hnone : ∀ x ∈ ([] : List UInt8), isSpace x = true := by simp
            exact .cons hnone hpieces'
          · intro hlt
            rw [hleft]
            exact hall (Nat.lt_of_succ_lt_succ hlt)
          · rw [List.map_cons, htext]
            intro a ha
            rcases List.mem_cons.mp ha with rfl | ha
            · exact ⟨hspace, hlen, fun hnil => nomatch hne hhead hnil⟩
            · exact hnew a ha

end loops

/-- **Command line splitting.** For a string, a buffer of `max_length ≥ 2` characters, and any
`max_args`: when every allocation succeeds, `split_input` returns the number of the arguments, and the
command and the arguments are what the line is split into. -/
theorem splitInput_splits {malloc : Nat → Option (List UInt8)} {s rest command : List UInt8}
    {maxLength : Int} (maxArgs : Int) (hs : 0 ∉ s) (hmax : 2 ≤ maxLength)
    (hcommand : maxLength ≤ command.length)
    (hmalloc : ∀ k, ∃ block, malloc k = some block ∧ maxLength ≤ block.length) :
    ∃ command' arguments, splitInput malloc (s ++ 0 :: rest) command maxLength maxArgs
        = some ((arguments.length : Int), command', arguments) ∧
      SplitsInto s maxLength maxArgs (Libc.text command') (arguments.map Libc.text) := by
  obtain ⟨gap, s₁, rfl, hgap, hhead, hskip⟩ := skipSpaces_spec hs rest
  have hs₁ : 0 ∉ s₁ := fun h => hs (List.mem_append_right _ h)
  obtain ⟨w, s₂, command', rfl, hspace, hlen, -, htext, hcopy⟩ :=
    copyWord_start hs₁ rest hmax hcommand
  have hs₂ : 0 ∉ s₂ := fun h => hs₁ (List.mem_append_right _ h)
  obtain ⟨gap', s₃, rfl, hgap', hhead', hskip'⟩ := skipSpaces_spec hs₂ rest
  have hs₃ : 0 ∉ s₃ := fun h => hs₂ (List.mem_append_right _ h)
  obtain ⟨arguments, left, hloop, hpieces, hcount, hall, hnew⟩ :=
    splitArguments_spec hmax hmalloc maxArgs.toNat hs₃ hhead' rest []
  obtain ⟨left', hpieces', hleft⟩ := hpieces.gap hgap'
  have hline : Pieces isSpace (gap ++ (w ++ (gap' ++ s₃))) (w :: arguments.map Libc.text) left' :=
    .cons hgap hpieces'
  have hwhole : ∀ p ∈ w :: arguments.map Libc.text, Whole isSpace p := by
    intro p hp
    rw [whole_iff]
    rcases List.mem_cons.mp hp with rfl | hp
    · exact hspace
    · exact (hnew p hp).1
  refine ⟨command', arguments, ?_, ?_⟩
  · unfold splitInput
    simp only [Option.bind_eq_bind, Option.bind_some, hskip, hcopy, hskip', hloop, List.nil_append]
  rw [htext]
  refine ⟨fun p hp => whole_iff.mp (hwhole p hp), ?_, fun a ha => (hnew a ha).2.2, ?_,
    hline.flatten_isPrefix hwhole, ?_, fun a b hab => hline.apart hwhole hab rfl⟩
  · intro p hp
    rcases List.mem_cons.mp hp with rfl | hp
    · exact hlen
    · exact (hnew p hp).2.1
  · rw [List.length_map]
    omega
  · intro hlt
    rw [List.length_map] at hlt
    rw [hline.filter hwhole, hleft, hall (by omega), List.append_nil]

/-- The line " a bcde f", with room for two characters and for two arguments. -/
theorem splitInput_splits_cut : ∃ command arguments,
    splitInput (fun _ => some [7, 7, 7]) [0x20, 0x61, 0x20, 0x62, 0x63, 0x64, 0x65, 0x20, 0x66, 0]
        [0, 0, 0] 3 2 = some (2, command, arguments) ∧
      Libc.text command = [0x61] ∧ arguments.map Libc.text = [[0x62, 0x63], [0x64, 0x65]] ∧
      SplitsInto [0x20, 0x61, 0x20, 0x62, 0x63, 0x64, 0x65, 0x20, 0x66] 3 2 (Libc.text command)
        (arguments.map Libc.text) := by
  obtain ⟨command, arguments, hrun, hsplit⟩ := @splitInput_splits (fun _ => some [7, 7, 7])
    [0x20, 0x61, 0x20, 0x62, 0x63, 0x64, 0x65, 0x20, 0x66] [] [0, 0, 0] 3 2 (by decide) (by decide)
    (by decide) (fun _ => ⟨[7, 7, 7], rfl, by decide⟩)
  have hresult : splitInput (fun _ => some [7, 7, 7])
      [0x20, 0x61, 0x20, 0x62, 0x63, 0x64, 0x65, 0x20, 0x66, 0] [0, 0, 0] 3 2
        = some (2, [0x61, 0, 0], [[0x62, 0x63, 0], [0x64, 0x65, 0]]) := by decide
  obtain ⟨-, hrest⟩ := Prod.mk.inj (Option.some.inj (hrun.symm.trans hresult))
  obtain ⟨rfl, rfl⟩ := Prod.mk.inj hrest
  exact ⟨_, _, hresult, rfl, rfl, hsplit⟩

end MicroKernel.Shell
