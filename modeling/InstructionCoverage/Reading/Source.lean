namespace InstructionCoverage

inductive FailureKind where
  | other
  | unexpectedEof
  | permissionDenied
  deriving DecidableEq

inductive LineError where
  | invalidByte (offset : Nat) (byte : UInt8)
  | truncated (offset : Nat)
  | unreadable (offset : Nat) (kind : FailureKind) (text : String)
  deriving DecidableEq

structure Fault where
  after : Nat
  kind : FailureKind

inductive Supply where
  | slice
  | stream (chunk : Nat) (fault : Option Fault)

structure Source where
  supply : Supply
  position : Nat
  rest : List UInt8

namespace Source

def ofSlice (bytes : List UInt8) : Source :=
  ⟨.slice, 0, bytes⟩

def ofStream (chunk : Nat) (fault : Option Fault) (bytes : List UInt8) : Source :=
  ⟨.stream chunk fault, 0, bytes⟩

def window (s : Source) (chunk : Nat) : Option Fault → Except LineError (List UInt8)
  | none => .ok (s.rest.take chunk)
  | some fault =>
    if fault.after ≤ s.position then .error (.unreadable s.position fault.kind "stream broke")
    else .ok (s.rest.take (min chunk (fault.after - s.position)))

def step (s : Source) : Source :=
  { s with position := s.position + 1, rest := s.rest.tail }

def next (s : Source) : Except LineError (UInt8 × Source) :=
  match s.supply with
  | .slice =>
    match s.rest with
    | [] => .error (.truncated s.position)
    | byte :: _ => .ok (byte, s.step)
  | .stream chunk fault =>
    match s.window chunk fault with
    | .error e => .error e
    | .ok [] => .error (.unreadable s.position .unexpectedEof "failed to fill whole buffer")
    | .ok (byte :: _) => .ok (byte, s.step)

def isExhausted (s : Source) : Except LineError Bool :=
  match s.supply with
  | .slice => .ok s.rest.isEmpty
  | .stream chunk fault => (s.window chunk fault).map List.isEmpty

theorem window_eq_cons {s : Source} {chunk : Nat} {fault : Option Fault} {byte : UInt8} {bytes : List UInt8}
    (h : s.window chunk fault = .ok (byte :: bytes)) : ∃ rest, s.rest = byte :: rest := by
  have take_eq : ∀ n, s.rest.take n = byte :: bytes → ∃ rest, s.rest = byte :: rest := by
    intro n hn
    cases hr : s.rest with
    | nil => simp [hr] at hn
    | cons b rest =>
      cases n with
      | zero => simp at hn
      | succ n => rw [hr, List.take_succ_cons] at hn; injection hn with hb; exact ⟨rest, by rw [hb]⟩
  cases fault with
  | none =>
    simp only [window, Except.ok.injEq] at h
    exact take_eq _ h
  | some fault =>
    simp only [window] at h
    split at h
    · cases h
    · injection h with h
      exact take_eq _ h

theorem next_eq_ok {s t : Source} {byte : UInt8} (h : s.next = .ok (byte, t)) :
    s.rest = byte :: t.rest ∧ t.position = s.position + 1 ∧ t.supply = s.supply := by
  have of_cons : ∀ {rest}, s.rest = byte :: rest → t = s.step →
      s.rest = byte :: t.rest ∧ t.position = s.position + 1 ∧ t.supply = s.supply := by
    rintro rest hr rfl
    exact ⟨by simp [step, hr], rfl, rfl⟩
  unfold next at h
  split at h
  · split at h
    · cases h
    · rename_i hr
      injection h with h
      injection h with hb ht
      exact of_cons (hb ▸ hr) ht.symm
  · split at h
    · cases h
    · cases h
    · rename_i hw
      injection h with h
      injection h with hb ht
      obtain ⟨rest, hr⟩ := window_eq_cons (hb ▸ hw)
      exact of_cons hr ht.symm

theorem length_rest_lt {s t : Source} {byte : UInt8} (h : s.next = .ok (byte, t)) :
    t.rest.length < s.rest.length := by
  rw [(next_eq_ok h).1, List.length_cons]
  exact Nat.lt_succ_self _

end Source

end InstructionCoverage
