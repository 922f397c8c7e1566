import MicroKernel.Net.EchoReply
import MicroKernel.Net.Segment

set_option autoImplicit false

/-! # Answers to answers

A frame makes each machine that receives it send one frame at most, and that to all the others. The
frames that can be sent are of three ranks: an echo request or anything else that comes from outside may
be answered with an ARP request, an ARP request with an ARP reply, and replies are not answered. So what
a frame sets off comes to an end (`no_storm`); the count is a potential that each delivery lowers.
-/

namespace MicroKernel.Net

open MicroKernel.Lib Bytes

/-! ## Ranks -/

/-- No machine answers the frame. -/
def Frame.Quiet (f : Frame) : Prop :=
  ∀ t p length, Carries f p length → (netstackProcessPacket t p length).2 = []

/-- A machine answers the frame with one that no machine answers. -/
def Frame.Asks (f : Frame) : Prop :=
  ∀ t p length, Carries f p length → ∀ o ∈ (netstackProcessPacket t p length).2, o.frame.Quiet

section ranks

variable {s t : Stack} {p : Bytes} {length : UInt16} {o : Output}

theorem Frame.Quiet.asks {f : Frame} (h : f.Quiet) : f.Asks := by
  intro t p length hc o ho
  rw [h t p length hc] at ho
  exact absurd ho List.not_mem_nil

theorem quiet_arpSendReply (ip : UInt32) (mac : Mac) : (arpSendReply s ip mac).Quiet := by
  intro t p length hc
  rw [processPacket_arpFrame hc]
  split
  · have hop : ¬ ((2 : UInt16) = 1 ∧ ip = t.netConfig.ipAddress) := fun h => absurd h.1 (by decide)
    dsimp only
    rw [if_neg hop]
  · rfl

theorem quiet_echoReply {mac : Mac} {dstIp : UInt32} {id seq : UInt16} {mem : Bytes} {data : Nat}
    {dataLen : UInt16} : (icmpFrame s mac dstIp 0 id seq mem data dataLen).Quiet := by
  intro t p length hc
  rw [processPacket_icmpFrame hc, if_neg]
  rintro ⟨-, -, htype⟩
  exact absurd htype (by decide)

theorem asks_arpSendRequest (ip : UInt32) : (arpSendRequest s ip).Asks := by
  intro t p length hc o ho
  rw [processPacket_arpFrame hc] at ho
  split at ho
  · dsimp only at ho
    split at ho
    · rw [List.mem_singleton.mp ho]
      exact quiet_arpSendReply _ _
    · exact absurd ho List.not_mem_nil
  · exact absurd ho List.not_mem_nil

/-! ## The answer to a frame -/

/-- Nothing is answered, or one frame, of the second rank at most. -/
def Answers (outputs : List Output) : Prop := outputs = [] ∨ ∃ o, outputs = [o] ∧ o.frame.Asks

theorem answers_handleArpPacket (a : Nat) : Answers (handleArpPacket s p a length).2 := by
  unfold handleArpPacket
  split
  · exact Or.inl rfl
  split
  · exact Or.inl rfl
  dsimp only
  split
  · exact Or.inr ⟨_, rfl, (quiet_arpSendReply _ _).asks⟩
  · exact Or.inl rfl

theorem answers_icmpSendEchoReply (dstIp : UInt32) (id seq : UInt16) (data : Nat) (dataLen : UInt16) :
    Answers (icmpSendEchoReply s dstIp id seq p data dataLen).2 := by
  unfold icmpSendEchoReply
  split
  · exact Or.inr ⟨_, rfl, asks_arpSendRequest _⟩
  · exact Or.inr ⟨_, rfl, quiet_echoReply.asks⟩

theorem answers_handleIcmpPacket (a : Nat) (srcIp : UInt32) :
    Answers (handleIcmpPacket s p a length srcIp).2 := by
  unfold handleIcmpPacket
  split
  · exact Or.inl rfl
  split
  · exact answers_icmpSendEchoReply _ _ _ _ _
  · exact Or.inl rfl

theorem answers_handleIpPacket (a : Nat) : Answers (handleIpPacket s p a length).2 := by
  unfold handleIpPacket
  split
  · exact Or.inl rfl
  split
  · exact Or.inl rfl
  split
  · exact Or.inl rfl
  dsimp only
  split
  · exact Or.inl rfl
  split
  · exact Or.inl rfl
  split
  · exact answers_handleIcmpPacket _ _
  · exact Or.inl rfl

theorem answers_processPacket : Answers (netstackProcessPacket s p length).2 := by
  unfold netstackProcessPacket
  split
  · exact Or.inl rfl
  dsimp only
  split
  · exact Or.inl rfl
  split
  · exact answers_handleArpPacket _
  split
  · exact answers_handleIpPacket _
  · exact Or.inl rfl

end ranks

/-! ## The traffic on a segment -/

/-- The machines, and the frames that each of them is still to receive. -/
structure Traffic (n : Nat) where
  hosts : Fin n → Stack
  pending : List (Fin n × Frame)

section traffic

variable {n : Nat}

/-- What is sent goes to all the others. -/
def toOthers (h : Fin n) (outputs : List Output) : List (Fin n × Frame) :=
  outputs.flatMap fun o => ((List.finRange n).erase h).map fun k => (k, o.frame)

/-- What a machine sends in answer to a frame fits the 1514 bytes of its buffer. -/
def AnswersFit (s : Stack) (p : Bytes) (length : UInt16) : Prop :=
  ∀ o ∈ (netstackProcessPacket s p length).2, o.frame.length ≤ 1514

/-- A frame is received, by a machine whose answer fits its buffer, or it is lost. -/
inductive Traffic.Step : Traffic n → Traffic n → Prop
  | receive {t : Traffic n} {before after : List (Fin n × Frame)} {h : Fin n} {f : Frame} {p : Bytes}
      {length : UInt16} : t.pending = before ++ (h, f) :: after → Carries f p length →
      AnswersFit (t.hosts h) p length →
      Step t ⟨Function.update t.hosts h (netstackProcessPacket (t.hosts h) p length).1,
        before ++ after ++ toOthers h (netstackProcessPacket (t.hosts h) p length).2⟩
  | lose {t : Traffic n} {before after : List (Fin n × Frame)} {h : Fin n} {f : Frame} :
      t.pending = before ++ (h, f) :: after → Step t ⟨t.hosts, before ++ after⟩

/-- `k` steps. -/
inductive Traffic.Run : Traffic n → Nat → Traffic n → Prop
  | refl (t : Traffic n) : Run t 0 t
  | tail {t t₁ t' : Traffic n} {k : Nat} : Run t k t₁ → Step t₁ t' → Run t (k + 1) t'

open Classical in
/-- How many steps a frame is good for that one machine is still to receive. -/
noncomputable def weight (n : Nat) (f : Frame) : Nat :=
  if f.Quiet then 1 else if f.Asks then n else 1 + (n - 1) * n

/-- How many steps are left at most. -/
noncomputable def Traffic.potential (t : Traffic n) : Nat :=
  (t.pending.map fun x => weight n x.2).sum

theorem weight_quiet {f : Frame} (h : f.Quiet) : weight n f = 1 := if_pos h

theorem weight_question {f : Frame} (hq : ¬ f.Quiet) (h : f.Asks) : weight n f = n := by
  rw [weight, if_neg hq, if_pos h]

theorem weight_other {f : Frame} (hq : ¬ f.Quiet) (h : ¬ f.Asks) : weight n f = 1 + (n - 1) * n := by
  rw [weight, if_neg hq, if_neg h]

theorem weight_asks (hn : 0 < n) {f : Frame} (h : f.Asks) : weight n f ≤ n := by
  by_cases hq : f.Quiet
  · rw [weight_quiet hq]
    exact hn
  · rw [weight_question hq h]

theorem weight_le (hn : 0 < n) (f : Frame) : weight n f ≤ 1 + (n - 1) * n := by
  have hsq : n - 1 ≤ (n - 1) * n := Nat.le_mul_of_pos_right _ hn
  unfold weight
  split
  · omega
  · split <;> omega

theorem weight_pos (hn : 0 < n) (f : Frame) : 0 < weight n f := by
  unfold weight
  split
  · exact Nat.one_pos
  · split <;> omega

/-- A frame to all the others. -/
theorem sum_toOthers (h : Fin n) (o : Output) :
    ((toOthers h [o]).map fun x => weight n x.2).sum = (n - 1) * weight n o.frame := by
  have hlen : ((List.finRange n).erase h).length = n - 1 := by
    rw [List.length_erase_of_mem (List.mem_finRange h), List.length_finRange]
  have hconst : ((fun x : Fin n × Frame => weight n x.2) ∘ fun k => (k, o.frame))
      = fun _ => weight n o.frame := rfl
  rw [toOthers, List.flatMap_singleton, List.map_map, hconst, List.map_const', List.sum_replicate, hlen,
    smul_eq_mul]

/-- **The answer is lighter** than what is answered. -/
theorem answer_lt (h : Fin n) {s : Stack} {f : Frame} {p : Bytes} {length : UInt16}
    (hc : Carries f p length) :
    ((toOthers h (netstackProcessPacket s p length).2).map fun x => weight n x.2).sum + 1
      ≤ weight n f := by
  have hn : 0 < n := Nat.zero_lt_of_lt h.isLt
  have hanswers : Answers (netstackProcessPacket s p length).2 := answers_processPacket
  rcases hanswers with hnone | ⟨o, hone, hasks⟩
  · rw [hnone]
    exact weight_pos hn f
  rw [hone, sum_toOthers]
  -- the answer to a question is quiet, and the answer to anything else asks at most
  by_cases hquiet : f.Quiet
  · rw [hquiet s p length hc] at hone
    cases hone
  by_cases hfasks : f.Asks
  · have ho : o.frame.Quiet := hfasks s p length hc o (by rw [hone]; exact List.mem_singleton.mpr rfl)
    rw [weight_quiet ho, weight_question hquiet hfasks]
    omega
  · have hle := Nat.mul_le_mul_left (n - 1) (weight_asks hn hasks)
    rw [weight_other hquiet hfasks]
    omega

/-- **Every step lowers the potential.** -/
theorem Traffic.Step.potential_lt {t t' : Traffic n} (hs : t.Step t') :
    t'.potential + 1 ≤ t.potential := by
  cases hs with
  | @receive before after h f p length hpending hc hfit =>
      have hlt := answer_lt (s := t.hosts h) h hc
      simp only [potential, hpending, List.map_append, List.map_cons, List.sum_append, List.sum_cons]
      omega
  | @lose before after h f hpending =>
      have hpos := weight_pos (Nat.zero_lt_of_lt h.isLt) f
      simp only [potential, hpending, List.map_append, List.map_cons, List.sum_append, List.sum_cons]
      omega

theorem Traffic.Run.potential_le {t t' : Traffic n} {k : Nat} (hr : t.Run k t') :
    k + t'.potential ≤ t.potential := by
  induction hr with
  | refl => omega
  | tail _ hs ih =>
      have hlt := hs.potential_lt
      omega

theorem sum_weight_le (hn : 0 < n) (pending : List (Fin n × Frame)) :
    (pending.map fun x => weight n x.2).sum ≤ pending.length * (1 + (n - 1) * n) := by
  induction pending with
  | nil => simp
  | cons x xs ih =>
      have hx := weight_le hn x.2
      rw [List.map_cons, List.sum_cons, List.length_cons, Nat.succ_mul]
      omega

/-- **No storm.** Whatever the frames are that `n` machines are to receive, from outside or sent by
themselves, and whatever their configurations and caches are: what each frame sets off ends after
`1 + (n - 1) * n` deliveries at most, in whatever order the frames are received. -/
theorem no_storm {t t' : Traffic n} {k : Nat} (hr : t.Run k t') :
    k ≤ t.pending.length * (1 + (n - 1) * n) := by
  have hle := hr.potential_le
  cases hp : t.pending with
  | nil =>
      have h0 : t.potential = 0 := by rw [Traffic.potential, hp]; rfl
      omega
  | cons x xs =>
      have hsum := sum_weight_le (Nat.zero_lt_of_lt x.1.isLt) t.pending
      have hpot : t.potential = (t.pending.map fun x => weight n x.2).sum := rfl
      rw [← hp]
      omega

end traffic

/-- An ARP packet is answered with an ARP packet, which fits. -/
theorem answersFit_arpFrame {s t : Stack} {mac targetMac : Mac} {op : UInt16} {targetIp : UInt32}
    {p : Bytes} {length : UInt16} (h : Carries (arpFrame s mac op targetMac targetIp) p length) :
    AnswersFit t p length := by
  intro o ho
  rw [processPacket_arpFrame h] at ho
  split at ho
  · dsimp only at ho
    split at ho
    · rw [List.mem_singleton.mp ho]
      change 42 ≤ 1514
      decide
    · exact absurd ho List.not_mem_nil
  · exact absurd ho List.not_mem_nil

/-- `10.0.0.2` is to receive a question of `10.0.0.1`. -/
def oneQuestion : Traffic 2 :=
  ⟨fun i => machine (if i.val = 0 then 1 else 2), [(⟨1, by decide⟩, arpSendRequest (machine 1) 0x0A000002)]⟩

/-- The question and its answer: two deliveries, of three at most. -/
theorem no_storm_two : ∃ t', oneQuestion.Run 2 t' ∧ 2 ≤ oneQuestion.pending.length * (1 + (2 - 1) * 2) := by
  have hcarry : Carries (arpSendRequest (machine 1) 0x0A000002)
      (arpSendRequest (machine 1) 0x0A000002).bytes 42 := .self (by decide)
  have hpending : oneQuestion.pending = [] ++ (1, arpSendRequest (machine 1) 0x0A000002) :: [] := rfl
  have hask := (Traffic.Run.refl oneQuestion).tail
    (.receive hpending hcarry (answersFit_arpFrame hcarry))
  have hanswer : (netstackProcessPacket (machine 2) (arpSendRequest (machine 1) 0x0A000002).bytes 42).2
      = [.arp (arpSendReply (machine 2) (machine 1).netConfig.ipAddress
          (machine 1).netConfig.macAddress)] := by
    rw [processPacket_arpFrame hcarry, if_pos (Stack.hears_broadcast _)]
    dsimp only
    exact if_pos ⟨rfl, rfl⟩
  have hcarry' : Carries (arpSendReply (machine 2) (machine 1).netConfig.ipAddress
      (machine 1).netConfig.macAddress) (arpSendReply (machine 2) (machine 1).netConfig.ipAddress
      (machine 1).netConfig.macAddress).bytes 42 := .self (by decide)
  have hpending' : ([] : List (Fin 2 × Frame)) ++ [] ++ toOthers 1 (netstackProcessPacket (machine 2)
      (arpSendRequest (machine 1) 0x0A000002).bytes 42).2
      = [] ++ (0, arpSendReply (machine 2) (machine 1).netConfig.ipAddress
          (machine 1).netConfig.macAddress) :: [] := by
    rw [hanswer]
    rfl
  have hrun := hask.tail (.receive hpending' hcarry' (answersFit_arpFrame hcarry'))
  exact ⟨_, hrun, no_storm hrun⟩

end MicroKernel.Net
