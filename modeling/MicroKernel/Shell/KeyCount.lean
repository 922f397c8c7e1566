import MicroKernel.Shell.CommandLoop

set_option autoImplicit false

/-! # The driver's count of the line

`kb_handler` lets a regular key through while its own count is below 127, and Backspace while it is
above 0. Every key that goes through is counted, whatever the shell does with it, and the shell never
tells the driver. So a key can be lost at a line that has room, and a Backspace at a line that has
characters.
-/

namespace MicroKernel.Shell

open MicroKernel.Lib CArray

/-- A press of a key without the extended prefix. -/
def Pressed (k : Keyboard) (scancode : UInt8) : Prop :=
  k.kbdState.extended = false ∧ scancode &&& scReleaseMask = 0

/-- The character of a regular key under the modifiers. -/
def keyChar (k : Keyboard) (scancode : UInt8) : UInt8 :=
  let key := scancodeToAscii scancode (kbIsShiftPressed k) k.kbdState.capsLock
  if kbIsCtrlPressed k then processCtrlCombination key else key

/-- A press of a printable key. -/
def PrintablePress (k : Keyboard) (scancode : UInt8) : Prop :=
  Pressed k scancode ∧ Printable (keyChar k scancode)

/-- A press of Backspace. -/
def BackspacePress (k : Keyboard) (scancode : UInt8) : Prop :=
  Pressed k scancode ∧ scancode = scBackspace

/-- The interrupt of the keyboard. -/
def Session.interrupt (s : Session) (scancode : UInt8) : Session :=
  { s with keyboard := kbHandler s.keyboard scancode }

/-- `command_loop` takes turns until the queue is empty. -/
inductive Drains (env : Env) : Session → Session → Prop
  | done {s : Session} (empty : s.keyboard.queue.toList = []) : Drains env s s
  | turn {s s₁ s₂ : Session} (pending : s.keyboard.queue.toList ≠ [])
      (turn : commandTurn env s 0 = some s₁) (rest : Drains env s₁ s₂) : Drains env s s₂

/-- A run of scancodes, with the queue drained after each. -/
inductive KeyRuns (env : Env) (s₀ : Session) : List UInt8 → Session → Prop
  | nil : KeyRuns env s₀ [] s₀
  | snoc {scancodes : List UInt8} {s s' : Session} {scancode : UInt8}
      (run : KeyRuns env s₀ scancodes s) (drain : Drains env (s.interrupt scancode) s') :
      KeyRuns env s₀ (scancodes ++ [scancode]) s'

/-- The scancode edits the line: a printable key at a line below 127 characters, and Backspace behind
a character. -/
def EditsLine (env : Env) (s : Session) (scancode : UInt8) : Prop :=
  ∃ e, s.line.Shows e ∧
    (PrintablePress s.keyboard scancode → e.text.length < 127 →
      ∃ s', Drains env (s.interrupt scancode) s' ∧
        s'.line.Shows (e.insert (keyChar s.keyboard scancode))) ∧
    (BackspacePress s.keyboard scancode → 0 < e.cursor →
      ∃ s', Drains env (s.interrupt scancode) s' ∧ s'.line.Shows e.backspace)

/-- The count of the driver agrees with the line on whether the key goes through. -/
def Counted (s : Session) (scancode : UInt8) : Prop :=
  (PrintablePress s.keyboard scancode → s.line.bufferIndex < 127 → s.keyboard.bufferIndex < 127) ∧
  (BackspacePress s.keyboard scancode → 0 < s.line.cursorPos → 0 < s.keyboard.bufferIndex)

/-- `P` holds at every scancode of the run. -/
def AtEveryKey (env : Env) (s₀ : Session) (scancodes : List UInt8) (P : Session → UInt8 → Prop) :
    Prop :=
  ∀ before scancode after, scancodes = before ++ scancode :: after →
    ∀ s, KeyRuns env s₀ before s → P s scancode

section press

variable {k : Keyboard} {scancode : UInt8}

/-- The keys with a printable character are none of the others. -/
theorem PrintablePress.regular (h : PrintablePress k scancode) :
    pressModifier k.kbdState scancode = none ∧ scancode ≠ scBackspace ∧ scancode ≠ scEnter := by
  have hother : ∀ c ∈ [0x2A, 0x36, 0x1D, 0x38, 0x3A, 0x45, 0x46, scBackspace, scEnter],
      ∀ shift caps : Bool, ¬ Printable (scancodeToAscii c shift caps) ∧
        ¬ Printable (processCtrlCombination (scancodeToAscii c shift caps)) := by
    decide +kernel
  have hne : ∀ c ∈ [0x2A, 0x36, 0x1D, 0x38, 0x3A, 0x45, 0x46, scBackspace, scEnter],
      scancode ≠ c := by
    rintro c hc rfl
    have hprint := h.2
    obtain ⟨h₁, h₂⟩ := hother _ hc (kbIsShiftPressed k) k.kbdState.capsLock
    unfold keyChar at hprint
    dsimp only at hprint
    split at hprint
    · exact h₂ hprint
    · exact h₁ hprint
  refine ⟨?_, hne _ (by simp), hne _ (by simp)⟩
  unfold pressModifier
  rw [if_neg (hne _ (by simp)), if_neg (hne _ (by simp)), if_neg (hne _ (by simp)),
    if_neg (hne _ (by simp)), if_neg (hne _ (by simp)), if_neg (hne _ (by simp)),
    if_neg (hne _ (by simp))]

/-- A press goes to `kbPress`. -/
theorem Pressed.kbHandler_eq (h : Pressed k scancode) :
    kbHandler k scancode = kbPress k scancode := by
  have hbase : ∀ n : Fin 256, (UInt8.ofNat n) &&& scReleaseMask = 0 →
      (UInt8.ofNat n) &&& ~~~scReleaseMask = UInt8.ofNat n := by
    decide +kernel
  have hmask := hbase ⟨scancode.toNat, scancode.toNat_lt⟩
  simp only [UInt8.ofNat_toNat] at hmask
  have hext : scancode ≠ scExtendedPrefix := by
    rintro rfl
    exact absurd h.2 (by decide)
  have hpause : scancode ≠ scPausePrefix := by
    rintro rfl
    exact absurd h.2 (by decide)
  simp [kbHandler, hext, hpause, h.1, h.2, hmask h.2]

/-- A regular key goes through below a count of 127, and is counted. -/
theorem kbPress_regular (hmod : pressModifier k.kbdState scancode = none)
    (hback : scancode ≠ scBackspace) (henter : scancode ≠ scEnter) (hkey : keyChar k scancode ≠ 0) :
    kbPress k scancode =
      if k.bufferIndex < 127 then
        { k with bufferIndex := k.bufferIndex + 1 }.push (keyChar k scancode)
      else k := by
  have hraw : scancodeToAscii scancode (kbIsShiftPressed k) k.kbdState.capsLock ≠ 0 := by
    intro hzero
    apply hkey
    simp [keyChar, hzero, processCtrlCombination]
  simp [kbPress, hmod, hback, henter, hraw, bufferSize, keyChar]

/-- Backspace goes through above a count of 0. -/
theorem kbPress_backspace (k : Keyboard) :
    kbPress k scBackspace =
      if 0 < k.bufferIndex then { k with bufferIndex := k.bufferIndex - 1 }.push 0x08 else k := by
  have hmod : pressModifier k.kbdState scBackspace = none := by
    simp [pressModifier, scBackspace]
  simp [kbPress, hmod]

end press

/-! ## Draining the queue -/

section drain

variable {env : Env} {s s' : Session} {e : LineEditor UInt8 255}

theorem Drains.of_empty (h : Drains env s s') (hq : s.keyboard.queue.toList = []) : s' = s := by
  cases h with
  | done empty => rfl
  | turn pending turn rest => exact absurd hq pending

theorem Drains.unique {s₁ : Session} (h : Drains env s s') (h₁ : Drains env s s₁) : s' = s₁ := by
  induction h with
  | done empty => exact (h₁.of_empty empty).symm
  | turn pending turn rest ih =>
      cases h₁ with
      | done empty => exact absurd empty pending
      | turn _ turn₁ rest₁ =>
          rw [turn] at turn₁
          cases turn₁
          exact ih rest₁

/-- The scancodes lead to one state. -/
theorem KeyRuns.unique {s₀ s₁ : Session} {scancodes : List UInt8} (h : KeyRuns env s₀ scancodes s)
    (h₁ : KeyRuns env s₀ scancodes s₁) : s = s₁ := by
  induction h generalizing s₁ with
  | nil =>
      generalize hl : ([] : List UInt8) = l at h₁
      cases h₁ with
      | nil => rfl
      | snoc _ _ => exact absurd hl (by simp)
  | snoc run drain ih =>
      generalize hl : _ ++ [_] = l at h₁
      cases h₁ with
      | nil => exact absurd hl (by simp)
      | snoc run₁ drain₁ =>
          obtain ⟨rfl, hlast⟩ := List.append_inj' hl rfl
          cases hlast
          rw [ih run₁] at drain
          exact drain.unique drain₁

/-- One character in the queue is one turn. -/
theorem drains_push (env : Env) (s : Session) (k : Keyboard) {ch : UInt8} {line : Line}
    (hk : k.queue.toList = [])
    (hchar : ∀ k', commandChar env { s with keyboard := k' } ch
      = some { s with keyboard := k', line }) :
    ∃ queue : InputQueue, queue.toList = [] ∧
      Drains env { s with keyboard := k.push ch } { s with keyboard := { k with queue }, line } := by
  have hq : (k.push ch).queue.toList = [ch] := by
    rw [toList_push, hk]
    rfl
  obtain ⟨-, queue, hempty, -, hturn⟩ := commandTurn_eq env { s with keyboard := k.push ch } hq
  rw [hchar] at hturn
  refine ⟨queue, hempty, Drains.turn ?_ hturn (Drains.done hempty)⟩
  rw [hq]
  exact List.cons_ne_nil _ _

/-- **Draining** keeps the invariant and ends with an empty queue. -/
theorem Drains.valid (hdrain : Drains env s s') (h : s.Valid e) (hrec : s.Recorded) :
    (∃ e', s'.Valid e') ∧ s'.Recorded ∧ s'.keyboard.queue.toList = [] := by
  induction hdrain generalizing e with
  | done empty => exact ⟨⟨e, h⟩, hrec, empty⟩
  | turn pending turn rest ih =>
      obtain ⟨⟨e₁, h₁⟩, hrec₁⟩ := h.commandTurn hrec turn
      exact ih h₁ hrec₁

theorem KeyRuns.valid {s₀ : Session} {scancodes : List UInt8} (hrun : KeyRuns env s₀ scancodes s)
    (h : s₀.Valid e) (hrec : s₀.Recorded) (hq : s₀.keyboard.queue.toList = []) :
    (∃ e', s.Valid e') ∧ s.Recorded ∧ s.keyboard.queue.toList = [] := by
  induction hrun with
  | nil => exact ⟨⟨e, h⟩, hrec, hq⟩
  | snoc run drain ih =>
      obtain ⟨⟨e', h'⟩, hrec', -⟩ := ih
      exact drain.valid (h'.withKeyboard _) hrec'

/-! ## A press -/

/-- A press of a printable key inserts its character when the driver lets it through. -/
theorem PrintablePress.drains (env : Env) {scancode : UInt8}
    (hpress : PrintablePress s.keyboard scancode) (h : s.Valid e)
    (hq : s.keyboard.queue.toList = []) (hcount : s.keyboard.bufferIndex < 127) :
    ∃ s', Drains env (s.interrupt scancode) s' ∧
      s'.line.Shows (e.insert (keyChar s.keyboard scancode)) ∧
      s'.keyboard.bufferIndex = s.keyboard.bufferIndex + 1 := by
  obtain ⟨hmod, hback, henter⟩ := hpress.regular
  obtain ⟨line, hinsert, hline⟩ := h.line.insertChar hpress.2.ne_zero
  obtain ⟨queue, -, hdrain⟩ := drains_push env s
    { s.keyboard with bufferIndex := s.keyboard.bufferIndex + 1 } hq
    fun k' => (commandChar_printable env hpress.2).trans (by rw [hinsert]; rfl)
  rw [Session.interrupt, hpress.1.kbHandler_eq,
    kbPress_regular hmod hback henter hpress.2.ne_zero, if_pos hcount]
  exact ⟨_, hdrain, hline, rfl⟩

/-- Otherwise it does nothing. -/
theorem PrintablePress.lost (env : Env) {scancode : UInt8}
    (hpress : PrintablePress s.keyboard scancode) (hq : s.keyboard.queue.toList = [])
    (hcount : ¬ s.keyboard.bufferIndex < 127) (hdrain : Drains env (s.interrupt scancode) s') :
    s' = s := by
  obtain ⟨hmod, hback, henter⟩ := hpress.regular
  have hsame : s.interrupt scancode = s := by
    rw [Session.interrupt, hpress.1.kbHandler_eq,
      kbPress_regular hmod hback henter hpress.2.ne_zero, if_neg hcount]
  rw [hsame] at hdrain
  exact hdrain.of_empty hq

/-- A press of Backspace deletes when the driver lets it through. -/
theorem BackspacePress.drains (env : Env) {scancode : UInt8}
    (hpress : BackspacePress s.keyboard scancode) (h : s.Valid e)
    (hq : s.keyboard.queue.toList = []) (hcount : 0 < s.keyboard.bufferIndex) :
    ∃ s', Drains env (s.interrupt scancode) s' ∧ s'.line.Shows e.backspace := by
  obtain ⟨hpressed, rfl⟩ := hpress
  obtain ⟨line, hback, hline⟩ := h.line.backspace
  obtain ⟨queue, -, hdrain⟩ := drains_push env s
    { s.keyboard with bufferIndex := s.keyboard.bufferIndex - 1 } hq
    fun k' => (commandChar_backspace env _).trans (by rw [hback]; rfl)
  rw [Session.interrupt, hpressed.kbHandler_eq, kbPress_backspace, if_pos hcount]
  exact ⟨_, hdrain, hline⟩

/-- Otherwise it does nothing. -/
theorem BackspacePress.lost (env : Env) {scancode : UInt8}
    (hpress : BackspacePress s.keyboard scancode) (hq : s.keyboard.queue.toList = [])
    (hcount : ¬ 0 < s.keyboard.bufferIndex) (hdrain : Drains env (s.interrupt scancode) s') :
    s' = s := by
  obtain ⟨hpressed, rfl⟩ := hpress
  have hsame : s.interrupt scBackspace = s := by
    rw [Session.interrupt, hpressed.kbHandler_eq, kbPress_backspace, if_neg hcount]
  rw [hsame] at hdrain
  exact hdrain.of_empty hq

/-- **A key edits the line** exactly when the count lets it through. -/
theorem Session.Valid.editsLine_iff (env : Env) (h : s.Valid e)
    (hq : s.keyboard.queue.toList = []) (scancode : UInt8) :
    EditsLine env s scancode ↔ Counted s scancode := by
  have hlen : e.text.length < 127 ↔ s.line.bufferIndex < 127 := by
    rw [h.line.bufferIndex_eq]
    omega
  have hcur : 0 < e.cursor ↔ 0 < s.line.cursorPos := by
    rw [h.line.cursorPos, LineEditor.cursor]
    omega
  constructor
  · rintro ⟨e₀, he₀, hprint, hback⟩
    obtain rfl := he₀.unique h.line
    refine ⟨fun hpress hroom => ?_, fun hpress hpos => ?_⟩
    · obtain ⟨s', hdrain, hshows⟩ := hprint hpress (hlen.mpr hroom)
      by_contra hcount
      rw [hpress.lost env hq hcount hdrain] at hshows
      have hgrown := congrArg (fun e => e.text.length) (hshows.unique h.line)
      rw [LineEditor.insert, dif_pos (by rw [← LineEditor.length_text]; omega)] at hgrown
      simp at hgrown
    · obtain ⟨s', hdrain, hshows⟩ := hback hpress (hcur.mpr hpos)
      by_contra hcount
      rw [hpress.lost env hq hcount hdrain] at hshows
      have hshort := congrArg LineEditor.cursor (hshows.unique h.line)
      rw [← hcur] at hpos
      simp only [LineEditor.cursor, LineEditor.backspace, List.length_tail] at hshort hpos
      omega
  · rintro ⟨hprint, hback⟩
    refine ⟨e, h.line, fun hpress hroom => ?_, fun hpress hpos => ?_⟩
    · obtain ⟨s', hdrain, hshows, -⟩ := hpress.drains env h hq (hprint hpress (hlen.mp hroom))
      exact ⟨s', hdrain, hshows⟩
    · exact hpress.drains env h hq (hback hpress (hcur.mp hpos))

end drain

/-- **When every key edits the line**: in the runs in which the count of the driver lets every key
through that the line has room or a character for. -/
theorem keys_edit_iff (env : Env) {keyboard : Keyboard} {drive : CurrentDrive}
    {block : Option (Vector UInt8 256)} {s₀ : Session}
    (hstart : commandLoopStart keyboard drive block = some s₀)
    (hq : keyboard.queue.toList = []) (scancodes : List UInt8) :
    AtEveryKey env s₀ scancodes (EditsLine env) ↔ AtEveryKey env s₀ scancodes Counted := by
  obtain ⟨hvalid, hrec, hkb, -⟩ := commandLoopStart_valid hstart
  have hstep : ∀ before s, KeyRuns env s₀ before s → ∀ scancode,
      EditsLine env s scancode ↔ Counted s scancode := by
    intro before s hrun scancode
    obtain ⟨⟨e, h⟩, -, hempty⟩ := hrun.valid hvalid hrec (by rw [hkb]; exact hq)
    exact h.editsLine_iff env hempty scancode
  constructor
  · intro h before scancode after hsplit s hrun
    exact (hstep before s hrun scancode).mp (h before scancode after hsplit s hrun)
  · intro h before scancode after hsplit s hrun
    exact (hstep before s hrun scancode).mpr (h before scancode after hsplit s hrun)

/-- Shift, `A` and Backspace. -/
theorem keys_edit_iff_shiftA :
    AtEveryKey quietEnv firstPrompt [0x2A, 0x1E, 0x0E] (EditsLine quietEnv) := by
  refine (keys_edit_iff quietEnv commandLoopStart_firstPrompt toList_emptyQueue _).mpr ?_
  have hvalid := (commandLoopStart_valid commandLoopStart_firstPrompt).1
  have hfirst : KeyRuns quietEnv firstPrompt [0x2A] (firstPrompt.interrupt 0x2A) :=
    .snoc .nil (.done toList_emptyQueue)
  have hpress : PrintablePress (firstPrompt.interrupt 0x2A).keyboard 0x1E := by
    unfold PrintablePress Pressed Printable
    decide
  obtain ⟨s₂, hdrain, -, hcount⟩ := hpress.drains quietEnv (hvalid.withKeyboard _) toList_emptyQueue
    (by decide)
  have hsecond : KeyRuns quietEnv firstPrompt [0x2A, 0x1E] s₂ := .snoc hfirst hdrain
  intro before scancode after hsplit s hrun
  match before, hsplit with
  | [], hsplit =>
      obtain ⟨rfl, -⟩ := List.cons.inj hsplit
      rw [hrun.unique .nil]
      exact ⟨fun _ _ => by decide, fun hback => absurd hback.2 (by decide)⟩
  | [c], hsplit =>
      obtain ⟨rfl, hrest⟩ := List.cons.inj hsplit
      obtain ⟨rfl, -⟩ := List.cons.inj hrest
      rw [hrun.unique hfirst]
      exact ⟨fun _ _ => by decide, fun hback => absurd hback.2 (by decide)⟩
  | [c, c'], hsplit =>
      obtain ⟨rfl, hrest⟩ := List.cons.inj hsplit
      obtain ⟨rfl, -⟩ := List.cons.inj hrest
      have hone : s.keyboard.bufferIndex = 1 := by
        rw [hrun.unique hsecond, hcount]
        rfl
      exact ⟨fun _ _ => by omega, fun _ _ => by omega⟩
  | _ :: _ :: _ :: _, hsplit => simp at hsplit

/-- Presses of Tab are counted and ignored. -/
theorem tabs_counted (n : Nat) (hn : n ≤ 127) :
    ∃ k, KeyRuns quietEnv firstPrompt (List.replicate n 0x0F) { firstPrompt with keyboard := k } ∧
      k.kbdState = Keyboard.initial.kbdState ∧ k.bufferIndex = n ∧ k.queue.toList = [] := by
  induction n with
  | zero => exact ⟨Keyboard.initial, KeyRuns.nil, rfl, rfl, toList_emptyQueue⟩
  | succ n ih =>
      obtain ⟨k, hrun, hstate, hcount, hq⟩ := ih (by omega)
      have hpressed : Pressed k 0x0F := ⟨by rw [hstate]; rfl, by decide⟩
      have htab : keyChar k 0x0F = 0x09 := by
        simp only [keyChar, kbIsShiftPressed, kbIsCtrlPressed, hstate]
        decide
      have hmod : pressModifier k.kbdState 0x0F = none := by simp [pressModifier]
      obtain ⟨queue, hempty, hdrain⟩ := drains_push quietEnv firstPrompt
        { k with bufferIndex := k.bufferIndex + 1 } hq fun k' => commandChar_tab quietEnv _
      refine ⟨{ k with bufferIndex := k.bufferIndex + 1, queue }, ?_, hstate, by simp [hcount],
        hempty⟩
      rw [List.replicate_succ']
      refine KeyRuns.snoc hrun ?_
      rw [Session.interrupt, hpressed.kbHandler_eq, kbPress_regular hmod (by decide) (by decide)
        (by rw [htab]; decide), htab, if_pos (by omega)]
      exact hdrain

/-- Behind 127 presses of Tab the key `a` is lost at the empty line. -/
theorem not_keys_edit :
    ¬ AtEveryKey quietEnv firstPrompt (List.replicate 127 0x0F ++ [0x1E]) (EditsLine quietEnv) := by
  intro h
  obtain ⟨k, hrun, hstate, hcount, hq⟩ := tabs_counted 127 (Nat.le_refl _)
  have hvalid : Session.Valid { firstPrompt with keyboard := k } LineEditor.empty :=
    (commandLoopStart_valid commandLoopStart_firstPrompt).1.withKeyboard k
  have hcounted := (hvalid.editsLine_iff quietEnv hq 0x1E).mp (h _ 0x1E [] rfl _ hrun)
  have hpress : PrintablePress k 0x1E := by
    refine ⟨⟨by rw [hstate]; rfl, by decide⟩, ?_⟩
    simp only [keyChar, kbIsShiftPressed, kbIsCtrlPressed, hstate]
    decide
  have hempty : firstPrompt.line.bufferIndex < 127 := by decide
  have hlt : k.bufferIndex < 127 := hcounted.1 hpress hempty
  omega

end MicroKernel.Shell
