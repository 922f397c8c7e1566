import Mathlib.Data.List.Infix
import Mathlib.Logic.Function.Basic
import Mathlib.Logic.Relation
import Mathlib.Tactic

set_option autoImplicit false

/-! # Critical sections under a spin lock

Any number of processors call an object in shared memory. A call saves the interrupt flag and clears
it, spins on the lock word with test-and-set, works on the memory one access after the other, clears
the lock word and restores the flag. An interrupt may come before every step for which the flag of
the processor is set; its handler makes calls of its own, and the interrupted work goes on when the
handler returns. Steps of different processors interleave in any order.

`Machine.Sound` is the invariant (`Sound.step`): at most one processor is inside, none of the work that
is interrupted holds the lock, and the memory is that of the finished calls, made one after the other,
and of the accesses of the call that is inside.
-/

namespace MicroKernel.Lib

/-! ## Objects -/

/-- An object in shared memory. An access is one step for all processors; it leads to the next one, or
ends the call with a result. -/
structure SharedObject (κ ρ σ : Type) where
  Loc : Type
  start : κ → Loc
  access : Loc → σ → (Loc ⊕ ρ) × σ

namespace SharedObject

variable {κ ρ σ : Type} (O : SharedObject κ ρ σ)

/-- An access after which the call goes on. -/
def Goes (a b : O.Loc × σ) : Prop := O.access a.1 a.2 = (.inl b.1, b.2)

/-- The call, when nothing else accesses the memory. -/
def Returns (k : κ) (s : σ) (r : ρ) (s' : σ) : Prop :=
  ∃ a, Relation.ReflTransGen O.Goes (O.start k, s) a ∧ O.access a.1 a.2 = (.inr r, s')

/-- Calls one after the other, with their results. -/
inductive History : σ → List (κ × ρ) → σ → Prop
  | nil (s : σ) : History s [] s
  | snoc {s s₁ s' : σ} {h : List (κ × ρ)} {k : κ} {r : ρ} :
      History s h s₁ → O.Returns k s₁ r s' → History s (h ++ [(k, r)]) s'

variable {O}

theorem rightUnique_goes : Relator.RightUnique O.Goes := by
  intro a b c hb hc
  have heq := hb.symm.trans hc
  rw [Prod.mk.injEq, Sum.inl.injEq] at heq
  exact Prod.ext heq.1 heq.2

/-- A call has one result. -/
theorem Returns.unique {k : κ} {s s' s'' : σ} {r r' : ρ} (h : O.Returns k s r s')
    (h' : O.Returns k s r' s'') : r' = r ∧ s'' = s' := by
  obtain ⟨a, hreach, hend⟩ := h
  obtain ⟨b, hreach', hend'⟩ := h'
  have hsame : b = a := by
    rcases Relation.ReflTransGen.total_of_right_unique rightUnique_goes hreach hreach' with hab | hba
    · rcases Relation.ReflTransGen.cases_head hab with heq | ⟨c, hgo, -⟩
      · exact heq.symm
      · rw [Goes, hend] at hgo
        cases hgo
    · rcases Relation.ReflTransGen.cases_head hba with heq | ⟨c, hgo, -⟩
      · exact heq
      · rw [Goes, hend'] at hgo
        cases hgo
  rw [hsame, hend, Prod.mk.injEq, Sum.inr.injEq] at hend'
  exact ⟨hend'.1.symm, hend'.2.symm⟩

/-- The accesses of a call compute a function of the memory. -/
def Implements (O : SharedObject κ ρ σ) (f : κ → σ → ρ × σ) : Prop :=
  ∀ k s, O.Returns k s (f k s).1 (f k s).2

/-- The results of whole calls, and the memory after them. -/
def runWhole (f : κ → σ → ρ × σ) : σ → List κ → List ρ × σ
  | s, [] => ([], s)
  | s, k :: ks => ((f k s).1 :: (runWhole f (f k s).2 ks).1, (runWhole f (f k s).2 ks).2)

theorem runWhole_snoc (f : κ → σ → ρ × σ) (s : σ) (ks : List κ) (k : κ) :
    runWhole f s (ks ++ [k]) = ((runWhole f s ks).1 ++ [(f k (runWhole f s ks).2).1],
      (f k (runWhole f s ks).2).2) := by
  induction ks generalizing s with
  | nil => rfl
  | cons k' ks ih => simp [runWhole, ih]

/-- A history of an object that implements a function is that of whole calls. -/
theorem History.eq_runWhole {f : κ → σ → ρ × σ} (hf : O.Implements f) {s s' : σ}
    {h : List (κ × ρ)} (hh : O.History s h s') :
    runWhole f s (h.map Prod.fst) = (h.map Prod.snd, s') := by
  induction hh with
  | nil => rfl
  | snoc _ hret ih =>
      obtain ⟨hr, hs⟩ := (hf _ _).unique hret
      rw [List.map_append, List.map_singleton, runWhole_snoc, ih, List.map_append,
        List.map_singleton, ← hr, ← hs]

end SharedObject

/-! ## Processors -/

/-- Where a piece of work is in a call. `before` is the interrupt flag when the call was made, `saved`
the one that was read. -/
inductive Phase (κ ρ Loc : Type)
  | idle
  | entered (k : κ) (before : Bool)
  | flagsRead (k : κ) (before saved : Bool)
  | spinning (k : κ) (before saved : Bool)
  | inside (k : κ) (before saved : Bool) (l : Loc)
  | leaving (before saved : Bool) (r : ρ)
  | restoring (before saved : Bool) (r : ρ)

/-- The work has taken the lock and not yet given it back. -/
def Phase.holds {κ ρ Loc : Type} : Phase κ ρ Loc → Bool
  | .inside .. => true
  | .leaving .. => true
  | _ => false

/-- What the interrupt flag is while the work is at the phase. -/
def Phase.Fits {κ ρ Loc : Type} (flag : Bool) : Phase κ ρ Loc → Prop
  | .idle => True
  | .entered _ before => flag = before
  | .flagsRead _ before saved => flag = before ∧ saved = before
  | .spinning _ before saved => flag = false ∧ saved = before
  | .inside _ before saved _ => flag = false ∧ saved = before
  | .leaving before saved _ => flag = false ∧ saved = before
  | .restoring before saved _ => flag = false ∧ saved = before

/-- A processor: its interrupt flag, the work that it does, and the work that was interrupted. -/
structure Processor (κ ρ Loc : Type) where
  flag : Bool
  top : Phase κ ρ Loc
  below : List (Phase κ ρ Loc)

/-- The steps of a processor that access neither the lock nor the memory. -/
inductive Processor.Step {κ ρ Loc : Type} : Processor κ ρ Loc → Processor κ ρ Loc → Prop
  | setFlag (b flag : Bool) (below : List (Phase κ ρ Loc)) :
      Step ⟨flag, .idle, below⟩ ⟨b, .idle, below⟩
  | interrupt (top : Phase κ ρ Loc) (below : List (Phase κ ρ Loc)) :
      Step ⟨true, top, below⟩ ⟨false, .idle, top :: below⟩
  | iret (flag : Bool) (top : Phase κ ρ Loc) (below : List (Phase κ ρ Loc)) :
      Step ⟨flag, .idle, top :: below⟩ ⟨true, top, below⟩
  | call (k : κ) (flag : Bool) (below : List (Phase κ ρ Loc)) :
      Step ⟨flag, .idle, below⟩ ⟨flag, .entered k flag, below⟩
  | readFlags (k : κ) (flag before : Bool) (below : List (Phase κ ρ Loc)) :
      Step ⟨flag, .entered k before, below⟩ ⟨flag, .flagsRead k before flag, below⟩
  | cli (k : κ) (flag before saved : Bool) (below : List (Phase κ ρ Loc)) :
      Step ⟨flag, .flagsRead k before saved, below⟩ ⟨false, .spinning k before saved, below⟩
  | popf (flag before saved : Bool) (r : ρ) (below : List (Phase κ ρ Loc)) :
      Step ⟨flag, .restoring before saved r, below⟩ ⟨saved, .idle, below⟩

/-- Interrupted work goes on with the flag set. -/
structure Processor.Fits {κ ρ Loc : Type} (c : Processor κ ρ Loc) : Prop where
  top : c.top.Fits c.flag
  below : ∀ a ∈ c.below, a.Fits true

section processors

variable {κ ρ Loc : Type} {c c' : Processor κ ρ Loc}

theorem Processor.Step.fits (h : c.Step c') (hc : c.Fits) : c'.Fits := by
  obtain ⟨htop, hbelow⟩ := hc
  cases h with
  | setFlag => exact ⟨trivial, hbelow⟩
  | interrupt => exact ⟨trivial, List.forall_mem_cons.mpr ⟨htop, hbelow⟩⟩
  | iret => exact ⟨(List.forall_mem_cons.mp hbelow).1, (List.forall_mem_cons.mp hbelow).2⟩
  | call => exact ⟨rfl, hbelow⟩
  | readFlags => exact ⟨⟨htop, htop⟩, hbelow⟩
  | cli => exact ⟨⟨rfl, htop.2⟩, hbelow⟩
  | popf => exact ⟨trivial, hbelow⟩

/-- Interrupted work does not hold the lock. -/
theorem Phase.Fits.holds_eq_false {a : Phase κ ρ Loc} (h : a.Fits true) : a.holds = false := by
  cases a with
  | inside => exact absurd h.1 (by decide)
  | leaving => exact absurd h.1 (by decide)
  | idle => rfl
  | entered => rfl
  | flagsRead => rfl
  | spinning => rfl
  | restoring => rfl

/-- A step without access leaves out the phases in which the lock is held. -/
theorem Processor.Step.holds (h : c.Step c') (hc : c.Fits) :
    c.top.holds = false ∧ c'.top.holds = false := by
  cases h with
  | interrupt => exact ⟨hc.top.holds_eq_false, rfl⟩
  | iret => exact ⟨rfl, (hc.below _ List.mem_cons_self).holds_eq_false⟩
  | setFlag => exact ⟨rfl, rfl⟩
  | call => exact ⟨rfl, rfl⟩
  | readFlags => exact ⟨rfl, rfl⟩
  | cli => exact ⟨rfl, rfl⟩
  | popf => exact ⟨rfl, rfl⟩

end processors

/-! ## The machine -/

/-- The processors, the lock word, the memory of the object, and the calls that have made their last
access, with their results. -/
structure Machine {κ ρ σ : Type} (O : SharedObject κ ρ σ) (P : Type) where
  processors : P → Processor κ ρ O.Loc
  lock : UInt32
  memory : σ
  history : List (κ × ρ)

namespace Machine

variable {κ ρ σ P : Type} {O : SharedObject κ ρ σ}

/-- The work of the processor `p` comes to another phase. -/
def goTo [DecidableEq P] (m : Machine O P) (p : P) (top : Phase κ ρ O.Loc) : Machine O P :=
  { m with processors := Function.update m.processors p { m.processors p with top := top } }

/-- The steps of the processor `p`. -/
inductive Step [DecidableEq P] (p : P) : Machine O P → Machine O P → Prop
  | own {m : Machine O P} {c : Processor κ ρ O.Loc} : (m.processors p).Step c →
      Step p m { m with processors := Function.update m.processors p c }
  | testAndSet {m : Machine O P} {k : κ} {before saved : Bool} :
      (m.processors p).top = .spinning k before saved →
      Step p m { m.goTo p (if m.lock = 0 then .inside k before saved (O.start k)
        else .spinning k before saved) with lock := 1 }
  | access {m : Machine O P} {k : κ} {before saved : Bool} {l l' : O.Loc} {s : σ} :
      (m.processors p).top = .inside k before saved l → O.access l m.memory = (.inl l', s) →
      Step p m { m.goTo p (.inside k before saved l') with memory := s }
  | last {m : Machine O P} {k : κ} {before saved : Bool} {l : O.Loc} {r : ρ} {s : σ} :
      (m.processors p).top = .inside k before saved l → O.access l m.memory = (.inr r, s) →
      Step p m { m.goTo p (.leaving before saved r) with
        memory := s, history := m.history ++ [(k, r)] }
  | release {m : Machine O P} {before saved : Bool} {r : ρ} :
      (m.processors p).top = .leaving before saved r →
      Step p m { m.goTo p (.restoring before saved r) with lock := 0 }

/-- `m'` is reached from `m` by steps of any processors. -/
def Reaches [DecidableEq P] (m m' : Machine O P) : Prop :=
  Relation.ReflTransGen (fun m m' => ∃ p, Step p m m') m m'

/-- `m'` is reached from `m` by steps of the processor `p`. -/
def ReachesAlone [DecidableEq P] (p : P) (m m' : Machine O P) : Prop :=
  Relation.ReflTransGen (Step p) m m'

/-- Nobody has made a call, and the lock is free. -/
structure Initial (s₀ : σ) (m : Machine O P) : Prop where
  idle : ∀ p, (m.processors p).top = .idle ∧ (m.processors p).below = []
  lock : m.lock = 0
  memory : m.memory = s₀
  history : m.history = []

/-! ## The invariant -/

/-- The memory is that of the finished calls, and of the accesses that the call inside has made. -/
def Atomic (s₀ : σ) (m : Machine O P) : Prop :=
  ∃ s, O.History s₀ m.history s ∧
    (∀ p k before saved l, (m.processors p).top = .inside k before saved l →
      Relation.ReflTransGen O.Goes (O.start k, s) (l, m.memory)) ∧
    ((∀ p k before saved l, (m.processors p).top ≠ .inside k before saved l) → m.memory = s)

/-- The invariant of the machine. -/
structure Sound (s₀ : σ) (m : Machine O P) : Prop where
  fits : ∀ p, (m.processors p).Fits
  alone : ∀ p q, (m.processors p).top.holds = true → (m.processors q).top.holds = true → p = q
  free : m.lock = 0 ↔ ∀ p, (m.processors p).top.holds = false
  word : m.lock = 0 ∨ m.lock = 1
  atomic : m.Atomic s₀

variable {s₀ : σ} {m m' : Machine O P} {p : P}

theorem Initial.sound (h : m.Initial s₀) : m.Sound s₀ := by
  have hidle : ∀ p, (m.processors p).top.holds = false := by
    intro p
    rw [(h.idle p).1]
    rfl
  refine ⟨fun p => ⟨?_, ?_⟩, fun p q hp => ?_, iff_of_true h.lock hidle, Or.inl h.lock, ?_⟩
  · rw [(h.idle p).1]
    trivial
  · rw [(h.idle p).2]
    simp
  · rw [hidle p] at hp
    cases hp
  · refine ⟨s₀, ?_, fun p k before saved l hp => ?_, fun _ => h.memory⟩
    · rw [h.history]
      exact .nil s₀
    · rw [(h.idle p).1] at hp
      cases hp

/-- The lock word is 1 while a processor holds it. -/
theorem Sound.lock_of_holds (h : m.Sound s₀) (hp : (m.processors p).top.holds = true) :
    m.lock = 1 := by
  refine h.word.resolve_left fun h0 => ?_
  rw [h.free.mp h0 p] at hp
  cases hp

/-- The call that is inside, on the memory of the calls before it. -/
theorem Sound.inside (h : m.Sound s₀) {k : κ} {before saved : Bool} {l : O.Loc}
    (hp : (m.processors p).top = .inside k before saved l) :
    ∃ s, O.History s₀ m.history s ∧
      Relation.ReflTransGen O.Goes (O.start k, s) (l, m.memory) := by
  obtain ⟨s, hhist, hin, -⟩ := h.atomic
  exact ⟨s, hhist, hin p k before saved l hp⟩

/-- Without a call inside the memory is that of the finished calls. -/
theorem Atomic.history (h : m.Atomic s₀)
    (hno : ∀ p k before saved l, (m.processors p).top ≠ .inside k before saved l) :
    O.History s₀ m.history m.memory := by
  obtain ⟨s, hhist, -, hout⟩ := h
  rw [hout hno]
  exact hhist

theorem Atomic.of_history (h : O.History s₀ m.history m.memory)
    (hno : ∀ p k before saved l, (m.processors p).top ≠ .inside k before saved l) :
    m.Atomic s₀ :=
  ⟨m.memory, h, fun p k before saved l hp => absurd hp (hno p k before saved l), fun _ => rfl⟩

/-- While `p` holds the lock nobody else does. -/
theorem Sound.others (h : m.Sound s₀) (hp : (m.processors p).top.holds = true) {q : P}
    (hq : q ≠ p) : (m.processors q).top.holds = false := by
  rw [← Bool.not_eq_true]
  exact fun hh => hq (h.alone q p hh hp)

/-- A processor that does not hold the lock is not inside. -/
theorem ne_inside {a : Phase κ ρ O.Loc} (h : a.holds = false) (k : κ) (before saved : Bool)
    (l : O.Loc) : a ≠ .inside k before saved l := by
  rintro rfl
  cases h

theorem leaving_ne_inside {k : κ} {before saved before' saved' : Bool} {l : O.Loc} {r : ρ} :
    (Phase.leaving before' saved' r : Phase κ ρ O.Loc) ≠ .inside k before saved l := by
  intro h
  cases h

section step

variable [DecidableEq P]

theorem goTo_self (m : Machine O P) (p : P) (top : Phase κ ρ O.Loc) :
    (m.goTo p top).processors p = { m.processors p with top := top } := Function.update_self ..

theorem goTo_of_ne (m : Machine O P) {p q : P} (hne : q ≠ p) (top : Phase κ ρ O.Loc) :
    (m.goTo p top).processors q = m.processors q := Function.update_of_ne hne _ _

/-- A step to a phase that fits keeps the processors in order. -/
theorem Sound.fits_goTo (h : m.Sound s₀) {top : Phase κ ρ O.Loc}
    (ht : top.Fits (m.processors p).flag) (q : P) : ((m.goTo p top).processors q).Fits := by
  by_cases hq : q = p
  · rw [hq, goTo_self]
    exact ⟨ht, (h.fits p).below⟩
  · rw [goTo_of_ne m hq]
    exact h.fits q

/-- The invariant for a machine in which only `p` may hold the lock. -/
theorem Sound.of_only {top : Phase κ ρ O.Loc}
    (hfits : ∀ q, (m'.processors q).Fits) (htop : (m'.processors p).top = top)
    (hothers : ∀ q, q ≠ p → (m'.processors q).top.holds = false)
    (hlock : m'.lock = if top.holds then 1 else 0) (hatomic : m'.Atomic s₀) : m'.Sound s₀ := by
  have honly : ∀ q, (m'.processors q).top.holds = true → q = p := by
    intro q hq
    by_contra hne
    rw [hothers q hne] at hq
    cases hq
  refine ⟨hfits, fun q q' hq hq' => (honly q hq).trans (honly q' hq').symm, ?_, ?_, hatomic⟩
  · rw [hlock]
    cases hh : top.holds with
    | true =>
        refine iff_of_false (by decide) fun hall => ?_
        have hp := hall p
        rw [htop, hh] at hp
        cases hp
    | false =>
        refine iff_of_true rfl fun q => ?_
        by_cases hq : q = p
        · rw [hq, htop, hh]
        · exact hothers q hq
  · rw [hlock]
    split
    · exact Or.inr rfl
    · exact Or.inl rfl

/-- A step without access. -/
theorem Sound.own (h : m.Sound s₀) {c : Processor κ ρ O.Loc} (hc : (m.processors p).Step c) :
    Sound s₀ { m with processors := Function.update m.processors p c } := by
  obtain ⟨hbefore, hafter⟩ := hc.holds (h.fits p)
  have hself : Function.update m.processors p c p = c := Function.update_self ..
  have hne : ∀ q, q ≠ p → Function.update m.processors p c q = m.processors q :=
    fun q hq => Function.update_of_ne hq _ _
  have hholds : ∀ q, (Function.update m.processors p c q).top.holds
      = (m.processors q).top.holds := by
    intro q
    by_cases hq : q = p
    · rw [hq, hself, hbefore, hafter]
    · rw [hne q hq]
  have hinside : ∀ q k before saved l,
      (Function.update m.processors p c q).top = .inside k before saved l ↔
        (m.processors q).top = .inside k before saved l := by
    intro q k before saved l
    by_cases hq : q = p
    · rw [hq, hself]
      exact iff_of_false (ne_inside hafter k before saved l) (ne_inside hbefore k before saved l)
    · rw [hne q hq]
  refine ⟨fun q => ?_, fun q q' hq hq' => ?_, ?_, h.word, ?_⟩
  · change (Function.update m.processors p c q).Fits
    by_cases hq : q = p
    · rw [hq, hself]
      exact hc.fits (h.fits p)
    · rw [hne q hq]
      exact h.fits q
  · exact h.alone q q' ((hholds q).symm.trans hq) ((hholds q').symm.trans hq')
  · simp only [hholds]
    exact h.free
  · obtain ⟨s, hhist, hin, hout⟩ := h.atomic
    refine ⟨s, hhist, fun q k before saved l hq => ?_, fun hno => hout fun q k before saved l => ?_⟩
    · exact hin q k before saved l ((hinside q k before saved l).mp hq)
    · exact (hinside q k before saved l).not.mp (hno q k before saved l)

/-- A step to another phase in which the lock is taken, used or given back. -/
theorem Sound.goTo (h : m.Sound s₀) {top : Phase κ ρ O.Loc} {lock : UInt32} {memory : σ}
    {history : List (κ × ρ)} (hothers : ∀ q, q ≠ p → (m.processors q).top.holds = false)
    (hfits : top.Fits (m.processors p).flag) (hlock : lock = if top.holds then 1 else 0)
    (hatomic : (∃ k before saved l s, top = .inside k before saved l ∧ O.History s₀ history s ∧
        Relation.ReflTransGen O.Goes (O.start k, s) (l, memory)) ∨
      (∀ k before saved l, top ≠ .inside k before saved l) ∧ O.History s₀ history memory) :
    Sound s₀ ⟨(m.goTo p top).processors, lock, memory, history⟩ := by
  have htop : ((m.goTo p top).processors p).top = top := by rw [goTo_self]
  have hrest : ∀ q, q ≠ p → ((m.goTo p top).processors q).top.holds = false := by
    intro q hq
    rw [goTo_of_ne m hq]
    exact hothers q hq
  refine Sound.of_only (h.fits_goTo hfits) htop hrest hlock ?_
  rcases hatomic with ⟨k, before, saved, l, s, rfl, hhist, hgo⟩ | ⟨hno, hhist⟩
  · refine ⟨s, hhist, fun q k' before' saved' l' hq => ?_, fun hno => ?_⟩
    · by_cases hqp : q = p
      · rw [hqp, htop] at hq
        cases hq
        exact hgo
      · exact absurd hq (ne_inside (hrest q hqp) _ _ _ _)
    · exact absurd htop (hno p k before saved l)
  · refine Atomic.of_history hhist fun q k before saved l => ?_
    by_cases hqp : q = p
    · rw [hqp, htop]
      exact hno k before saved l
    · exact ne_inside (hrest q hqp) _ _ _ _

/-- **Every step keeps the invariant**. -/
theorem Sound.step (h : m.Sound s₀) (hs : Step p m m') : m'.Sound s₀ := by
  cases hs with
  | own hc => exact h.own hc
  | @testAndSet k before saved hp =>
      have hfit := (h.fits p).top
      rw [hp] at hfit
      by_cases h0 : m.lock = 0
      · rw [if_pos h0]
        have hfree := h.free.mp h0
        have hhist := h.atomic.history fun q => ne_inside (hfree q)
        exact h.goTo (fun q _ => hfree q) hfit rfl (Or.inl ⟨k, before, saved, _, _, rfl, hhist, .refl⟩)
      · -- the word is already 1, and the processor goes on spinning
        rw [if_neg h0]
        have hsame : m.goTo p (.spinning k before saved) = m := by
          unfold Machine.goTo
          rw [← hp, Function.update_eq_self]
        rw [hsame, ← h.word.resolve_left h0]
        exact h
  | @access k before saved l l' s hp hacc =>
      have hfit := (h.fits p).top
      have hholds : (m.processors p).top.holds = true := by rw [hp]; rfl
      obtain ⟨s₁, hhist, hgo⟩ := h.inside hp
      rw [hp] at hfit
      have hlock := h.lock_of_holds hholds
      exact h.goTo (fun q => h.others hholds) hfit hlock
        (Or.inl ⟨k, before, saved, l', s₁, rfl, hhist, hgo.tail hacc⟩)
  | @last k before saved l r s hp hacc =>
      have hfit := (h.fits p).top
      have hholds : (m.processors p).top.holds = true := by rw [hp]; rfl
      obtain ⟨s₁, hhist, hgo⟩ := h.inside hp
      rw [hp] at hfit
      have hlock := h.lock_of_holds hholds
      exact h.goTo (fun q => h.others hholds) hfit hlock
        (Or.inr ⟨fun _ _ _ _ => leaving_ne_inside, hhist.snoc ⟨_, hgo, hacc⟩⟩)
  | @release before saved r hp =>
      have hfit := (h.fits p).top
      have hholds : (m.processors p).top.holds = true := by rw [hp]; rfl
      rw [hp] at hfit
      have hhist := h.atomic.history fun q k b f l hq => by
        have hin : (m.processors q).top.holds = true := by rw [hq]; rfl
        rw [h.alone q p hin hholds, hp] at hq
        cases hq
      exact h.goTo (fun q => h.others hholds) hfit rfl (Or.inr ⟨ne_inside rfl, hhist⟩)

/-- **In every reachable state** the invariant holds. -/
theorem Reaches.sound (hr : Reaches m m') (h : m.Sound s₀) : m'.Sound s₀ := by
  induction hr with
  | refl => exact h
  | tail _ hs ih =>
      obtain ⟨p, hs⟩ := hs
      exact ih.step hs

/-! ## Progress -/

/-- A processor that spins in vain waits for another one. -/
theorem Sound.exists_holder (h : m.Sound s₀) (hp : (m.processors p).top.holds = false)
    (hlock : m.lock ≠ 0) : ∃ q, q ≠ p ∧ (m.processors q).top.holds = true := by
  by_contra hno
  refine hlock (h.free.mpr fun q => ?_)
  by_cases hq : q = p
  · rw [hq, hp]
  · rw [← Bool.not_eq_true]
    exact fun hh => hno ⟨q, hq, hh⟩

/-- The accesses of the call inside, made by its processor alone. -/
theorem exists_reachesAlone_goes {k : κ} {before saved : Bool} {l : O.Loc}
    (hp : (m.processors p).top = .inside k before saved l) {a : O.Loc × σ}
    (hgo : Relation.ReflTransGen O.Goes (l, m.memory) a) :
    ∃ m', ReachesAlone p m m' ∧ (m'.processors p).top = .inside k before saved a.1 ∧
      m'.memory = a.2 ∧ ∀ q, q ≠ p → m'.processors q = m.processors q := by
  induction hgo with
  | refl => exact ⟨m, .refl, hp, rfl, fun q _ => rfl⟩
  | @tail b c _ hstep ih =>
      obtain ⟨m₁, hreach, htop, hmem, hrest⟩ := ih
      have hacc : O.access b.1 m₁.memory = (.inl c.1, c.2) := by rw [hmem]; exact hstep
      refine ⟨_, hreach.tail (.access htop hacc), ?_, rfl, fun q hq => ?_⟩
      · exact congrArg Processor.top (goTo_self m₁ p _)
      · exact (goTo_of_ne m₁ hq _).trans (hrest q hq)

/-- **The holder can give the lock back** on its own, when calls end. -/
theorem Sound.exists_release (hterm : ∀ k s, ∃ r s', O.Returns k s r s') (h : m.Sound s₀)
    (hp : (m.processors p).top.holds = true) :
    ∃ m', ReachesAlone p m m' ∧ m'.lock = 0 ∧ ∀ q, q ≠ p → m'.processors q = m.processors q := by
  have hleave : ∀ m₁ : Machine O P, ∀ before saved r,
      (m₁.processors p).top = .leaving before saved r →
      (∀ q, q ≠ p → m₁.processors q = m.processors q) → ReachesAlone p m m₁ →
      ∃ m', ReachesAlone p m m' ∧ m'.lock = 0 ∧ ∀ q, q ≠ p → m'.processors q = m.processors q :=
    fun m₁ before saved r htop hrest hreach => ⟨_, hreach.tail (.release htop), rfl,
      fun q hq => (goTo_of_ne m₁ hq _).trans (hrest q hq)⟩
  cases htop : (m.processors p).top with
  | leaving before saved r => exact hleave m before saved r htop (fun q _ => rfl) .refl
  | inside k before saved l =>
      obtain ⟨s, -, hgo⟩ := h.inside htop
      obtain ⟨r, s', a, hend, hret⟩ := hterm k s
      -- the call is on its way to the access that ends it
      have hrest : Relation.ReflTransGen O.Goes (l, m.memory) a := by
        rcases Relation.ReflTransGen.total_of_right_unique SharedObject.rightUnique_goes hgo hend
          with hab | hba
        · exact hab
        · rcases Relation.ReflTransGen.cases_head hba with heq | ⟨c, hc, -⟩
          · rw [heq]
          · rw [SharedObject.Goes, hret] at hc
            cases hc
      obtain ⟨m₁, hreach, htop₁, hmem, hothers⟩ := exists_reachesAlone_goes htop hrest
      have hlast : O.access a.1 m₁.memory = (.inr r, s') := by rw [hmem]; exact hret
      refine hleave _ before saved r ?_ (fun q hq => ?_) (hreach.tail (.last htop₁ hlast))
      · exact congrArg Processor.top (goTo_self m₁ p _)
      · exact (goTo_of_ne m₁ hq _).trans (hothers q hq)
  | idle => rw [htop] at hp; cases hp
  | entered => rw [htop] at hp; cases hp
  | flagsRead => rw [htop] at hp; cases hp
  | spinning => rw [htop] at hp; cases hp
  | restoring => rw [htop] at hp; cases hp

theorem ReachesAlone.reaches (h : ReachesAlone p m m') : Reaches m m' :=
  h.lift id fun _ _ hs => ⟨p, hs⟩

/-- **No deadlock**: a processor that spins can get in. -/
theorem Sound.can_enter (hterm : ∀ k s, ∃ r s', O.Returns k s r s') (h : m.Sound s₀) {k : κ}
    {before saved : Bool} (hp : (m.processors p).top = .spinning k before saved) :
    ∃ m', Reaches m m' ∧ (m'.processors p).top = .inside k before saved (O.start k) := by
  have henter : ∀ m₁ : Machine O P, m₁.processors p = m.processors p → m₁.lock = 0 →
      ∃ m', Step p m₁ m' ∧ (m'.processors p).top = .inside k before saved (O.start k) := by
    intro m₁ hsame h0
    refine ⟨_, .testAndSet (hsame ▸ hp), ?_⟩
    rw [if_pos h0]
    exact congrArg Processor.top (goTo_self m₁ p _)
  by_cases h0 : m.lock = 0
  · obtain ⟨m', hs, hin⟩ := henter m rfl h0
    exact ⟨m', .single ⟨p, hs⟩, hin⟩
  · obtain ⟨q, hne, hq⟩ := h.exists_holder (by rw [hp]; rfl) h0
    obtain ⟨m₁, hreach, hfree, hrest⟩ := h.exists_release hterm hq
    obtain ⟨m', hs, hin⟩ := henter m₁ (hrest p hne.symm) hfree
    exact ⟨m', hreach.reaches.tail ⟨p, hs⟩, hin⟩

end step

end Machine

end MicroKernel.Lib
