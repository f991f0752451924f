import InstructionCoverage.Progress

/-!
Stretches of polls. A stage of an operation polls its handle a number of times that only its input
decides, and how it ends is how that stretch ends.
-/

namespace InstructionCoverage.Progress

def grant : Nat → Progress → Ending × Progress
  | 0, p => (.completed, p)
  | k + 1, p =>
    match p.poll with
    | (.completed, q) => grant k q
    | stop => stop

def Agrees (p q : Progress) : Prop :=
  p.answers = q.answers ∧ p.polls = q.polls

theorem Agrees.refl (p : Progress) : p.Agrees p := ⟨rfl, rfl⟩

theorem Agrees.symm {p q : Progress} (h : p.Agrees q) : q.Agrees p := ⟨h.1.symm, h.2.symm⟩

theorem Agrees.trans {p q r : Progress} (h : p.Agrees q) (h' : q.Agrees r) : p.Agrees r :=
  ⟨h.1.trans h'.1, h.2.trans h'.2⟩

theorem announce_agrees (p : Progress) (message : String) : (p.announce message).Agrees p := ⟨rfl, rfl⟩

@[simp] theorem poll_fst (p : Progress) : p.poll.1 = p.answers p.polls := rfl
@[simp] theorem poll_answers (p : Progress) : p.poll.2.answers = p.answers := rfl
@[simp] theorem poll_polls (p : Progress) : p.poll.2.polls = p.polls + 1 := rfl

theorem Agrees.poll {p q : Progress} (h : p.Agrees q) : p.poll.1 = q.poll.1 ∧ p.poll.2.Agrees q.poll.2 := by
  refine ⟨?_, ?_, ?_⟩
  · rw [poll_fst, poll_fst, h.1, h.2]
  · exact h.1
  · rw [poll_polls, poll_polls, h.2]

@[simp] theorem grant_zero (p : Progress) : p.grant 0 = (.completed, p) := rfl

theorem grant_succ (k : Nat) (p : Progress) :
    p.grant (k + 1) = match p.poll with
      | (.completed, q) => q.grant k
      | stop => stop := rfl

theorem grant_succ_completed {p : Progress} (h : p.poll.1 = .completed) (k : Nat) :
    p.grant (k + 1) = p.poll.2.grant k := by
  rw [grant_succ]
  split
  · rename_i q hq
    rw [hq]
  · rename_i hne
    exact (hne p.poll.2 (Prod.ext h rfl)).elim

theorem grant_succ_stopped {p : Progress} (h : p.poll.1 ≠ .completed) (k : Nat) : p.grant (k + 1) = p.poll := by
  rw [grant_succ]
  split
  · rename_i hq
    exact absurd (by rw [hq]) h
  · rfl

theorem grant_add (j k : Nat) (p : Progress) :
    p.grant (j + k) = match p.grant j with
      | (.completed, q) => q.grant k
      | stop => stop := by
  induction j generalizing p with
  | zero => simp
  | succ j ih =>
    rw [Nat.succ_add_eq_add_succ, Nat.add_succ]
    by_cases h : p.poll.1 = .completed
    · rw [grant_succ_completed h, grant_succ_completed h, ih]
    · rw [grant_succ_stopped h, grant_succ_stopped h]
      split
      · rename_i hq
        exact absurd (by rw [hq]) h
      · rfl

theorem grant_completed_add {j : Nat} {p : Progress} (h : (p.grant j).1 = .completed) (k : Nat) :
    p.grant (j + k) = (p.grant j).2.grant k := by
  rw [grant_add]
  cases hg : p.grant j with
  | mk ending q =>
    rw [hg] at h
    cases h
    rfl

theorem grant_completed_of_add {j k : Nat} {p : Progress} (h : (p.grant (j + k)).1 = .completed) :
    (p.grant j).1 = .completed := by
  rw [grant_add] at h
  cases hg : p.grant j with
  | mk ending q =>
    rw [hg] at h
    cases ending with
    | completed => rfl
    | cancelled => cases h
    | panicked => cases h

@[simp] theorem grant_answers (k : Nat) (p : Progress) : (p.grant k).2.answers = p.answers := by
  induction k generalizing p with
  | zero => rfl
  | succ k ih =>
    by_cases h : p.poll.1 = .completed
    · rw [grant_succ_completed h, ih, poll_answers]
    · rw [grant_succ_stopped h, poll_answers]

theorem grant_polls {k : Nat} {p : Progress} (h : (p.grant k).1 = .completed) :
    (p.grant k).2.polls = p.polls + k := by
  induction k generalizing p with
  | zero => rfl
  | succ k ih =>
    by_cases hp : p.poll.1 = .completed
    · rw [grant_succ_completed hp] at h ⊢
      rw [ih h, poll_polls]
      omega
    · rw [grant_succ_stopped hp] at h
      exact absurd h hp

theorem Agrees.grant {p q : Progress} (h : p.Agrees q) (k : Nat) :
    (p.grant k).1 = (q.grant k).1 ∧ (p.grant k).2.Agrees (q.grant k).2 := by
  induction k generalizing p q with
  | zero => exact ⟨rfl, h⟩
  | succ k ih =>
    by_cases hp : p.poll.1 = .completed
    · have hq : q.poll.1 = .completed := h.poll.1 ▸ hp
      rw [grant_succ_completed hp, grant_succ_completed hq]
      exact ih h.poll.2
    · have hq : q.poll.1 ≠ .completed := h.poll.1 ▸ hp
      rw [grant_succ_stopped hp, grant_succ_stopped hq]
      exact h.poll

def Lenient (p : Progress) : Prop :=
  ∀ k, p.answers k = .completed

theorem unbounded_lenient : unbounded.Lenient := fun _ => rfl

theorem Lenient.grant {p : Progress} (h : p.Lenient) (k : Nat) : (p.grant k).1 = .completed := by
  induction k generalizing p with
  | zero => rfl
  | succ k ih =>
    rw [grant_succ_completed (h p.polls)]
    exact ih h

def Calm (p : Progress) : Prop :=
  ∀ k, p.answers k ≠ .panicked

theorem Calm.of_answers {p q : Progress} (h : p.Calm) (hq : q.answers = p.answers) : q.Calm := by
  intro k
  rw [hq]
  exact h k

theorem Calm.grant {p : Progress} (h : p.Calm) (k : Nat) : (p.grant k).1 ≠ .panicked := by
  induction k generalizing p with
  | zero => simp
  | succ k ih =>
    by_cases hp : p.poll.1 = .completed
    · rw [grant_succ_completed hp]
      exact ih h
    · rw [grant_succ_stopped hp]
      exact h p.polls

theorem cancelAfter_calm (n : Nat) : (cancelAfter n).Calm := by
  intro k
  change (if k < n then Ending.completed else .cancelled) ≠ .panicked
  split <;> decide

theorem poll_cancelAfter {n : Nat} {p : Progress} (h : p.answers = (cancelAfter n).answers) :
    p.poll.1 = if p.polls < n then .completed else .cancelled := by
  rw [poll_fst, h]
  rfl

theorem grant_cancelAfter {n k : Nat} {p : Progress} (h : p.answers = (cancelAfter n).answers) (hp : p.polls ≤ n) :
    (p.grant k).1 = if p.polls + k ≤ n then .completed else .cancelled := by
  induction k generalizing p with
  | zero => rw [if_pos (by omega)]; rfl
  | succ k ih =>
    have answer := poll_cancelAfter h
    by_cases hn : p.polls < n
    · rw [if_pos hn] at answer
      have hq : p.poll.2.polls ≤ n := by rw [poll_polls]; omega
      have hk : p.poll.2.polls + k = p.polls + (k + 1) := by rw [poll_polls]; omega
      rw [grant_succ_completed answer, ih (p := p.poll.2) h hq, hk]
    · rw [if_neg hn] at answer
      rw [grant_succ_stopped (by rw [answer]; decide), answer, if_neg (by omega)]

structure CutAt (p : Progress) (k : Nat) : Prop where
  passed : ∀ j < k, p.answers (p.polls + j) = .completed
  cancelled : p.answers (p.polls + k) = .cancelled

theorem grant_passed {k : Nat} {p : Progress} (h : ∀ j < k, p.answers (p.polls + j) = .completed) :
    p.grant k = (.completed, { p with polls := p.polls + k }) := by
  induction k generalizing p with
  | zero => rfl
  | succ k ih =>
    have hpoll : p.poll.1 = .completed := h 0 (by omega)
    have hrest : ∀ j < k, p.poll.2.answers (p.poll.2.polls + j) = .completed := by
      intro j hj
      have hj' := h (j + 1) (by omega)
      rwa [poll_answers, poll_polls, Nat.add_assoc, Nat.add_comm 1 j]
    have hpolls : p.polls + 1 + k = p.polls + (k + 1) := by omega
    rw [grant_succ_completed hpoll, ih hrest, poll_polls, hpolls]
    rfl

theorem CutAt.grant {k n : Nat} {p : Progress} (h : p.CutAt k) (hk : k < n) :
    p.grant n = (.cancelled, { p with polls := p.polls + (k + 1) }) := by
  obtain ⟨m, rfl⟩ : ∃ m, n = k + (m + 1) := ⟨n - k - 1, by omega⟩
  rw [grant_add, grant_passed h.passed]
  dsimp only
  rw [grant_succ_stopped]
  · exact Prod.ext h.cancelled rfl
  · rw [poll_fst, h.cancelled]
    decide

theorem CutAt.unique {j k : Nat} {p : Progress} (hj : p.CutAt j) (hk : p.CutAt k) : j = k := by
  rcases Nat.lt_trichotomy j k with hlt | heq | hlt
  · exact absurd (hj.cancelled.symm.trans (hk.passed j hlt)) (by decide)
  · exact heq
  · exact absurd (hk.cancelled.symm.trans (hj.passed k hlt)) (by decide)

theorem Calm.cut_or_passed {p : Progress} (h : p.Calm) (n : Nat) :
    (∃ k < n, p.CutAt k) ∨ ∀ j < n, p.answers (p.polls + j) = .completed := by
  induction n with
  | zero => exact .inr fun j hj => absurd hj (by omega)
  | succ n ih =>
    rcases ih with ⟨k, hk, hcut⟩ | hpassed
    · exact .inl ⟨k, by omega, hcut⟩
    · cases hn : p.answers (p.polls + n) with
      | panicked => exact absurd hn (h _)
      | cancelled => exact .inl ⟨n, by omega, hpassed, hn⟩
      | completed =>
        refine .inr fun j hj => ?_
        rcases Nat.lt_succ_iff_lt_or_eq.1 hj with hlt | rfl
        · exact hpassed j hlt
        · exact hn

theorem cancelAfter_cutAt (n : Nat) : (cancelAfter n).CutAt n := by
  constructor
  · intro j hj
    simp [cancelAfter, ofAnswers, hj]
  · simp [cancelAfter, ofAnswers]

end InstructionCoverage.Progress
