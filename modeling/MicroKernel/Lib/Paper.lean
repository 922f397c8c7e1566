import MicroKernel.Lib.CArray

set_option autoImplicit false

/-! # Screens and paper

Text is written into rows of `cols` cells. A paper gets one more row whenever the text goes on behind
its last one. A screen has a fixed number of rows and loses the first one instead. `Screen.EndOf` says
that a screen shows the last rows of a paper; every mark preserves that (`Screen.EndOf.print`).

The cells of all rows stand one behind the other, and a position is an index among them.
-/

namespace MicroKernel.Lib

/-- A paper, and where it is written next. -/
structure Paper (α : Type) (cols : Nat) where
  cells : List α
  pos : Nat
  rows : cols ∣ cells.length
  pos_lt : pos < cells.length

/-- A screen, and where it is written next. -/
structure Screen (α : Type) (rows cols : Nat) where
  cells : List α
  pos : Nat
  length_eq : cells.length = rows * cols
  pos_lt : pos < rows * cols

/-- What can be written. -/
inductive Mark (α : Type)
  | cell (a : α)
  | newline
  | carriageReturn

variable {α : Type} {rows cols : Nat}

/-- The cells with the mark. -/
def Mark.put : Mark α → Nat → List α → List α
  | cell a, pos, cells => cells.set pos a
  | newline, _, cells => cells
  | carriageReturn, _, cells => cells

/-- The position behind the mark. -/
def Mark.next (cols : Nat) : Mark α → Nat → Nat
  | cell _, pos => pos + 1
  | newline, pos => (pos / cols + 1) * cols
  | carriageReturn, pos => pos / cols * cols

@[simp] theorem Mark.length_put (m : Mark α) (pos : Nat) (cells : List α) :
    (m.put pos cells).length = cells.length := by
  cases m with
  | cell a => exact List.length_set
  | newline => rfl
  | carriageReturn => rfl

theorem Mark.next_le (m : Mark α) {pos n : Nat} (hn : cols ∣ n) (h : pos < n) :
    m.next cols pos ≤ n := by
  obtain ⟨k, rfl⟩ := hn
  have hdiv : pos / cols < k := Nat.div_lt_of_lt_mul h
  have hmul : (pos / cols + 1) * cols ≤ cols * k := by
    rw [Nat.mul_comm cols k]
    exact Nat.mul_le_mul_right cols hdiv
  cases m with
  | cell a => exact h
  | newline => exact hmul
  | carriageReturn => exact le_trans (Nat.mul_le_mul_right cols (Nat.le_succ _)) hmul

theorem cols_pos {pos n : Nat} (hn : cols ∣ n) (h : pos < n) : 0 < cols := by
  refine Nat.pos_of_ne_zero ?_
  rintro rfl
  rw [Nat.zero_dvd.mp hn] at h
  omega

/-- A mark on a paper; `blank` fills a new row. -/
def Paper.print (p : Paper α cols) (blank : α) (m : Mark α) : Paper α cols where
  cells := if m.next cols p.pos < p.cells.length then m.put p.pos p.cells
    else m.put p.pos p.cells ++ List.replicate cols blank
  pos := m.next cols p.pos
  rows := by
    split
    · rw [Mark.length_put]
      exact p.rows
    · rw [List.length_append, Mark.length_put, List.length_replicate]
      exact Nat.dvd_add p.rows (Nat.dvd_refl cols)
  pos_lt := by
    have hle := m.next_le p.rows p.pos_lt
    have hpos := cols_pos p.rows p.pos_lt
    split
    · rwa [Mark.length_put]
    · rw [List.length_append, Mark.length_put, List.length_replicate]
      omega

/-- A mark on a screen; `blank` fills the last row when it scrolls. -/
def Screen.print (s : Screen α rows cols) (blank : α) (m : Mark α) : Screen α rows cols where
  cells := if m.next cols s.pos < rows * cols then m.put s.pos s.cells
    else (m.put s.pos s.cells).drop cols ++ List.replicate cols blank
  pos := if m.next cols s.pos < rows * cols then m.next cols s.pos else m.next cols s.pos - cols
  length_eq := by
    have hle : cols ≤ rows * cols := Nat.le_of_dvd (by have := s.pos_lt; omega) (Nat.dvd_mul_left ..)
    split
    · rw [Mark.length_put, s.length_eq]
    · rw [List.length_append, List.length_drop, Mark.length_put, s.length_eq, List.length_replicate]
      omega
  pos_lt := by
    have hle := m.next_le (Nat.dvd_mul_left cols rows) s.pos_lt
    have hpos := cols_pos (Nat.dvd_mul_left cols rows) s.pos_lt
    have hlt := s.pos_lt
    split
    next h => exact h
    next h => omega

/-- The screen as a paper. -/
def Screen.paper (s : Screen α rows cols) : Paper α cols where
  cells := s.cells
  pos := s.pos
  rows := by
    rw [s.length_eq]
    exact Nat.dvd_mul_left cols rows
  pos_lt := by
    rw [s.length_eq]
    exact s.pos_lt

/-- The screen shows the last rows of the paper. -/
def Screen.EndOf (s : Screen α rows cols) (p : Paper α cols) : Prop :=
  ∃ above, p.cells = above ++ s.cells ∧ p.pos = above.length + s.pos

theorem Screen.endOf_paper (s : Screen α rows cols) : s.EndOf s.paper :=
  ⟨[], rfl, (Nat.zero_add s.pos).symm⟩

/-- Behind whole rows a mark does what it does at the top. -/
theorem Mark.next_add (hcols : 0 < cols) (m : Mark α) {a : Nat} (ha : cols ∣ a) (pos : Nat) :
    m.next cols (a + pos) = a + m.next cols pos := by
  obtain ⟨k, rfl⟩ := ha
  have hdiv : (cols * k + pos) / cols = k + pos / cols := Nat.mul_add_div hcols k pos
  cases m with
  | cell a => rfl
  | newline =>
      rw [Mark.next, Mark.next, hdiv]
      ring
  | carriageReturn =>
      rw [Mark.next, Mark.next, hdiv]
      ring

theorem Mark.put_append (m : Mark α) (above cells : List α) (pos : Nat) :
    m.put (above.length + pos) (above ++ cells) = above ++ m.put pos cells := by
  cases m with
  | cell a => simp [Mark.put]
  | newline => rfl
  | carriageReturn => rfl

/-- **A screen keeps showing the last rows**, whatever is written. -/
theorem Screen.EndOf.print {s : Screen α rows cols} {p : Paper α cols} (h : s.EndOf p) (blank : α)
    (m : Mark α) : (s.print blank m).EndOf (p.print blank m) := by
  obtain ⟨above, hcells, hpos⟩ := h
  have hcols := cols_pos p.rows p.pos_lt
  have hlen : p.cells.length = above.length + rows * cols := by
    rw [hcells, List.length_append, s.length_eq]
  have habove : cols ∣ above.length :=
    (Nat.dvd_add_iff_left (Nat.dvd_mul_left cols rows)).mpr (hlen ▸ p.rows)
  have hnext : m.next cols p.pos = above.length + m.next cols s.pos := by
    rw [hpos, m.next_add hcols habove]
  have hput : m.put p.pos p.cells = above ++ m.put s.pos s.cells := by
    rw [hpos, hcells, m.put_append]
  have hle : cols ≤ rows * cols := Nat.le_of_dvd (by have := s.pos_lt; omega) (Nat.dvd_mul_left ..)
  unfold Screen.EndOf Screen.print Paper.print
  dsimp only
  rw [hnext, hput, hlen]
  by_cases hroom : m.next cols s.pos < rows * cols
  · rw [if_pos (by omega), if_pos hroom, if_pos hroom]
    exact ⟨above, rfl, rfl⟩
  · rw [if_neg (by omega), if_neg hroom, if_neg hroom]
    -- the first row of the screen goes to what is above it
    refine ⟨above ++ (m.put s.pos s.cells).take cols, ?_, ?_⟩
    · rw [List.append_assoc, List.append_assoc, ← List.append_assoc ((m.put s.pos s.cells).take cols),
        List.take_append_drop]
    · rw [List.length_append, List.length_take, Mark.length_put, s.length_eq]
      omega

/-! ## Tabs and corrections -/

/-- What a typewriter does: a mark, the way to the next stop in the row, or a step back that takes the
last cell of the row away. -/
inductive Stroke (α : Type)
  | mark (m : Mark α)
  | tab (width : Nat)
  | back

/-- The cells with the stroke. -/
def Stroke.put (cols : Nat) (blank : α) : Stroke α → Nat → List α → List α
  | mark m, pos, cells => m.put pos cells
  | tab _, _, cells => cells
  | back, pos, cells => if pos % cols = 0 then cells else cells.set (pos - 1) blank

/-- The position behind the stroke. A stop behind the row is the beginning of the next one. -/
def Stroke.next (cols : Nat) : Stroke α → Nat → Nat
  | mark m, pos => m.next cols pos
  | tab width, pos => pos / cols * cols + min cols ((pos % cols / width + 1) * width)
  | back, pos => if pos % cols = 0 then pos else pos - 1

@[simp] theorem Stroke.length_put (blank : α) (k : Stroke α) (pos : Nat) (cells : List α) :
    (k.put cols blank pos cells).length = cells.length := by
  cases k with
  | mark m => exact m.length_put pos cells
  | tab width => rfl
  | back =>
      rw [Stroke.put]
      split
      · rfl
      · exact List.length_set

theorem Stroke.next_le (k : Stroke α) {pos n : Nat} (hn : cols ∣ n) (h : pos < n) :
    k.next cols pos ≤ n := by
  cases k with
  | mark m => exact m.next_le hn h
  | tab width =>
      obtain ⟨j, rfl⟩ := hn
      have hdiv : pos / cols < j := Nat.div_lt_of_lt_mul h
      have hmul : (pos / cols + 1) * cols ≤ j * cols := Nat.mul_le_mul_right cols hdiv
      have hmin : min cols ((pos % cols / width + 1) * width) ≤ cols := Nat.min_le_left ..
      rw [Nat.mul_comm cols j]
      rw [Nat.add_mul, Nat.one_mul] at hmul
      exact le_trans (Nat.add_le_add_left hmin _) hmul
  | back =>
      rw [Stroke.next]
      split
      · exact Nat.le_of_lt h
      · omega

/-- A stroke on a paper. -/
def Paper.strike (p : Paper α cols) (blank : α) (k : Stroke α) : Paper α cols where
  cells := if k.next cols p.pos < p.cells.length then k.put cols blank p.pos p.cells
    else k.put cols blank p.pos p.cells ++ List.replicate cols blank
  pos := k.next cols p.pos
  rows := by
    split
    · rw [Stroke.length_put]
      exact p.rows
    · rw [List.length_append, Stroke.length_put, List.length_replicate]
      exact Nat.dvd_add p.rows (Nat.dvd_refl cols)
  pos_lt := by
    have hle := k.next_le p.rows p.pos_lt
    have hpos := cols_pos p.rows p.pos_lt
    split
    · rwa [Stroke.length_put]
    · rw [List.length_append, Stroke.length_put, List.length_replicate]
      omega

/-- A stroke on a screen. -/
def Screen.strike (s : Screen α rows cols) (blank : α) (k : Stroke α) : Screen α rows cols where
  cells := if k.next cols s.pos < rows * cols then k.put cols blank s.pos s.cells
    else (k.put cols blank s.pos s.cells).drop cols ++ List.replicate cols blank
  pos := if k.next cols s.pos < rows * cols then k.next cols s.pos else k.next cols s.pos - cols
  length_eq := by
    have hle : cols ≤ rows * cols := Nat.le_of_dvd (by have := s.pos_lt; omega) (Nat.dvd_mul_left ..)
    split
    · rw [Stroke.length_put, s.length_eq]
    · rw [List.length_append, List.length_drop, Stroke.length_put, s.length_eq, List.length_replicate]
      omega
  pos_lt := by
    have hle := k.next_le (Nat.dvd_mul_left cols rows) s.pos_lt
    have hpos := cols_pos (Nat.dvd_mul_left cols rows) s.pos_lt
    have hlt := s.pos_lt
    split
    next h => exact h
    next h => omega

/-- Behind whole rows a stroke does what it does at the top. -/
theorem Stroke.next_add (hcols : 0 < cols) (k : Stroke α) {a : Nat} (ha : cols ∣ a) (pos : Nat) :
    k.next cols (a + pos) = a + k.next cols pos := by
  cases k with
  | mark m => exact m.next_add hcols ha pos
  | tab width =>
      obtain ⟨j, rfl⟩ := ha
      have hdiv : (cols * j + pos) / cols = j + pos / cols := Nat.mul_add_div hcols j pos
      have hmod : (cols * j + pos) % cols = pos % cols := Nat.mul_add_mod ..
      rw [Stroke.next, Stroke.next, hdiv, hmod]
      ring
  | back =>
      obtain ⟨j, rfl⟩ := ha
      have hmod : (cols * j + pos) % cols = pos % cols := Nat.mul_add_mod ..
      rw [Stroke.next, Stroke.next, hmod]
      by_cases hzero : pos % cols = 0
      · rw [if_pos hzero, if_pos hzero]
      · have hpos : pos ≠ 0 := fun h => hzero (h ▸ Nat.zero_mod cols)
        rw [if_neg hzero, if_neg hzero]
        omega

theorem Stroke.put_append (blank : α) (k : Stroke α) {above : List α} (ha : cols ∣ above.length)
    (cells : List α) (pos : Nat) :
    k.put cols blank (above.length + pos) (above ++ cells) = above ++ k.put cols blank pos cells := by
  cases k with
  | mark m => exact m.put_append above cells pos
  | tab width => rfl
  | back =>
      obtain ⟨j, hj⟩ := ha
      have hmod : (above.length + pos) % cols = pos % cols := by
        rw [hj]
        exact Nat.mul_add_mod ..
      rw [Stroke.put, Stroke.put, hmod]
      by_cases hzero : pos % cols = 0
      · rw [if_pos hzero, if_pos hzero]
      · have hpos : pos ≠ 0 := fun h => hzero (h ▸ Nat.zero_mod cols)
        have hsub : above.length + pos - 1 = above.length + (pos - 1) := by omega
        rw [if_neg hzero, if_neg hzero, hsub]
        simp

/-- **A screen keeps showing the last rows**, whatever is typed. -/
theorem Screen.EndOf.strike {s : Screen α rows cols} {p : Paper α cols} (h : s.EndOf p) (blank : α)
    (k : Stroke α) : (s.strike blank k).EndOf (p.strike blank k) := by
  obtain ⟨above, hcells, hpos⟩ := h
  have hcols := cols_pos p.rows p.pos_lt
  have hlen : p.cells.length = above.length + rows * cols := by
    rw [hcells, List.length_append, s.length_eq]
  have habove : cols ∣ above.length :=
    (Nat.dvd_add_iff_left (Nat.dvd_mul_left cols rows)).mpr (hlen ▸ p.rows)
  have hnext : k.next cols p.pos = above.length + k.next cols s.pos := by
    rw [hpos, k.next_add hcols habove]
  have hput : k.put cols blank p.pos p.cells = above ++ k.put cols blank s.pos s.cells := by
    rw [hpos, hcells, k.put_append blank habove]
  have hle : cols ≤ rows * cols := Nat.le_of_dvd (by have := s.pos_lt; omega) (Nat.dvd_mul_left ..)
  unfold Screen.EndOf Screen.strike Paper.strike
  dsimp only
  rw [hnext, hput, hlen]
  by_cases hroom : k.next cols s.pos < rows * cols
  · rw [if_pos (by omega), if_pos hroom, if_pos hroom]
    exact ⟨above, rfl, rfl⟩
  · rw [if_neg (by omega), if_neg hroom, if_neg hroom]
    -- the first row of the screen goes to what is above it
    refine ⟨above ++ (k.put cols blank s.pos s.cells).take cols, ?_, ?_⟩
    · rw [List.append_assoc, List.append_assoc,
        ← List.append_assoc ((k.put cols blank s.pos s.cells).take cols), List.take_append_drop]
    · rw [List.length_append, List.length_take, Stroke.length_put, s.length_eq]
      omega

/-! ## Scrolling in an array -/

/-- The cells when the first `n` of them have been replaced by those a row further down. -/
def moved (cols n : Nat) (cells : List α) : List α := (cells.drop cols).take n ++ cells.drop n

theorem moved_zero (cols : Nat) (cells : List α) : moved cols 0 cells = cells := by simp [moved]

theorem moved_end {k : Nat} {cells : List α} (h : cells.length = k + cols) :
    moved cols k cells = cells.drop cols ++ cells.drop k := by
  rw [moved, List.take_of_length_le (by rw [List.length_drop, h]; omega)]

/-- One cell of a row further down is moved up. -/
theorem moved_succ {n : Nat} {cells : List α} (h : n + cols < cells.length) :
    CArray.read (moved cols n cells) (n + cols) = some cells[n + cols] ∧
      CArray.write (moved cols n cells) n cells[n + cols] = some (moved cols (n + 1) cells) := by
  have hfront : ((cells.drop cols).take n).length = n := by
    rw [List.length_take, List.length_drop]
    omega
  have hnext : (cells.drop cols)[n]? = some cells[n + cols] := by
    rw [List.getElem?_drop, Nat.add_comm cols n, List.getElem?_eq_getElem h]
  constructor
  · have hcell : (moved cols n cells)[n + cols]? = some cells[n + cols] := by
      rw [moved, List.getElem?_append_right (by omega), hfront, Nat.add_sub_cancel_left,
        List.getElem?_drop, List.getElem?_eq_getElem h]
    rw [CArray.read, if_pos (by omega)]
    exact hcell
  · have hsplit : cells.drop n = cells[n] :: cells.drop (n + 1) :=
      List.drop_eq_getElem_cons (by omega)
    have htake : (cells.drop cols).take (n + 1) = (cells.drop cols).take n ++ [cells[n + cols]] := by
      rw [List.take_add_one, hnext]
      rfl
    rw [moved, hsplit, CArray.write_at rfl (by rw [hfront]), moved, htake, List.append_assoc]
    rfl

end MicroKernel.Lib
