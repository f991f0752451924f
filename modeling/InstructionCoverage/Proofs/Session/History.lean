import InstructionCoverage.Proofs.Session.Run

namespace InstructionCoverage

def Answer.outcome? : Answer → Option Outcome
  | .report r => some r.outcome
  | .outcome o => some o
  | .refused _ => none
  | .panicked => none

namespace Session

open Progress

theorem outcome_ne {a : Answer} {o : Outcome} (h : a.outcome? = some o) :
    a ≠ .panicked ∧ ∀ e, a ≠ .refused e := by
  constructor
  · rintro rfl
    cases h
  · rintro e rfl
    cases h

theorem settle_refused {answer : Outcome → Answer} (ha : ∀ o, (answer o).outcome? = some o)
    (r : Ending × Session × Progress) (e : SessionError) : settle answer r ≠ .refused e := by
  have hne (o : Outcome) : answer o ≠ .refused e := (outcome_ne (ha o)).2 e
  obtain ⟨ending, s, q⟩ := r
  cases ending with
  | panicked => simp [settle]
  | cancelled => exact hne .cancelled
  | completed =>
    rw [settle]
    split
    · exact hne .completed
    · exact hne .cancelled
    · simp

def reaches (disk : FileSystem) (op : Operation) (s : Session) (p : Progress) : Bool :=
  match plan disk op s p with
  | (.answer _, _) => false
  | _ => !s.busy

/-- A session over a listing after any requests in any order, with the answer of the latest operation that reached
the aggregate. -/
inductive History (l : Listing) : Session → Option Answer → Prop
  | start : History l (ofListing l) none
  | subscribe {s : Session} {last : Option Answer} (u : Subscriber) (h : History l s last) :
      History l (s.subscribe u) last
  | decodeWith {s : Session} {last : Option Answer} (d : LineDecoder) (h : History l s last) :
      History l { s with decoder := d } last
  | request {s : Session} {last : Option Answer} (disk : FileSystem) (op : Operation) (p : Progress)
      (h : History l s last) :
      History l (s.run disk op p).session (if s.reaches disk op p then some (s.run disk op p).answer else last)

def Reachable (l : Listing) (s : Session) : Prop :=
  ∃ last, History l s last

theorem Reachable.run {l : Listing} {s : Session} (h : Reachable l s) (disk : FileSystem) (op : Operation)
    (p : Progress) : Reachable l (s.run disk op p).session := by
  obtain ⟨last, h⟩ := h
  exact ⟨_, h.request disk op p⟩

theorem History.reached {l : Listing} {s : Session} {last : Option Answer} {disk : FileSystem} {op : Operation}
    {p : Progress} (h : History l s last) (hr : s.reaches disk op p = true) :
    History l (s.run disk op p).session (some (s.run disk op p).answer) := by
  have h' := h.request disk op p
  rwa [if_pos hr] at h'

theorem History.missed {l : Listing} {s : Session} {last : Option Answer} {disk : FileSystem} {op : Operation}
    {p : Progress} (h : History l s last) (hr : s.reaches disk op p = false) :
    History l (s.run disk op p).session last := by
  have h' := h.request disk op p
  rwa [if_neg (by rw [hr]; decide)] at h'

section Plans

variable {s : Session} {disk : FileSystem} {op : Operation} {p q : Progress} {a : Aggregate}

theorem changePlan_merge {step : Aggregate → Except SessionError Aggregate} {answer : Outcome → Answer}
    (h : s.changePlan step = .merge a answer) :
    s.aggregate.poisoned = false ∧ answer = .outcome ∧ step s.aggregate.value = .ok a := by
  rw [changePlan, Guarded.read] at h
  cases hp : s.aggregate.poisoned with
  | true => simp [hp, bind, Except.bind] at h
  | false =>
    cases hs : step s.aggregate.value with
    | error e => simp [hp, hs, bind, Except.bind] at h
    | ok b =>
      simp only [hp, hs, bind, Except.bind, Bool.false_eq_true, if_false, Plan.merge.injEq] at h
      exact ⟨rfl, h.2.symm, by rw [h.1]⟩

theorem changePlan_ne_clear {step : Aggregate → Except SessionError Aggregate} : s.changePlan step ≠ .clear a := by
  rw [changePlan]
  split <;> simp

theorem importPlan_merge {paths : List Path} {answer : Outcome → Answer}
    (h : importPlan disk paths s p = (.merge a answer, q)) :
    s.aggregate.poisoned = false ∧ ∃ parsed failed, parsed ≠ [] ∧ a = s.aggregate.value.loadAll parsed ∧
      answer = fun o => .report ⟨parsed.map fun f => f.status true, failed, o⟩ := by
  rw [importPlan] at h
  split at h
  · cases h
  · cases h
  · rename_i parsed failed p' _
    split at h
    · cases h
    · rename_i hne
      split at h
      · cases h
      · cases h
      · rw [Guarded.read] at h
        cases hp : s.aggregate.poisoned with
        | true => simp [hp] at h
        | false =>
          simp only [hp, Bool.false_eq_true, if_false, Prod.mk.injEq, Plan.merge.injEq] at h
          exact ⟨rfl, parsed, failed, by simpa using hne, h.1.1.symm, h.1.2.symm⟩

theorem importPlan_ne_clear {paths : List Path} : importPlan disk paths s p ≠ (.clear a, q) := by
  rw [importPlan]
  repeat' split
  all_goals simp

theorem plan_merge {answer : Outcome → Answer} (h : plan disk op s p = (.merge a answer, q)) :
    s.aggregate.poisoned = false ∧ ∀ o, (answer o).outcome? = some o := by
  have change {step : Aggregate → Except SessionError Aggregate}
      (h : (s.changePlan step, p) = (Plan.merge a answer, q)) :
      s.aggregate.poisoned = false ∧ ∀ o, (answer o).outcome? = some o := by
    obtain ⟨hp, rfl, -⟩ := changePlan_merge (Prod.ext_iff.1 h).1
    exact ⟨hp, fun _ => rfl⟩
  have batch {paths : List Path} {p' : Progress} (h : importPlan disk paths s p' = (.merge a answer, q)) :
      s.aggregate.poisoned = false ∧ ∀ o, (answer o).outcome? = some o := by
    obtain ⟨hp, parsed, failed, -, -, rfl⟩ := importPlan_merge h
    exact ⟨hp, fun _ => rfl⟩
  cases op with
  | importFiles paths => exact batch h
  | spawnImport paths token => exact batch h
  | refresh => exact change h
  | remove path => exact change h
  | setEnabled path enabled => exact change h
  | clear =>
    rw [plan] at h
    split at h <;> cases h

theorem plan_clear (h : plan disk op s p = (.clear a, q)) :
    op = .clear ∧ s.aggregate.poisoned = false ∧ a = .empty ∧ q = p := by
  cases op with
  | importFiles paths => exact absurd h importPlan_ne_clear
  | spawnImport paths token => exact absurd h importPlan_ne_clear
  | refresh => exact absurd (Prod.ext_iff.1 h).1 changePlan_ne_clear
  | remove path => exact absurd (Prod.ext_iff.1 h).1 changePlan_ne_clear
  | setEnabled path enabled => exact absurd (Prod.ext_iff.1 h).1 changePlan_ne_clear
  | clear =>
    rw [plan, Guarded.read] at h
    cases hp : s.aggregate.poisoned with
    | true => simp [hp] at h
    | false =>
      simp only [hp, Bool.false_eq_true, if_false, Prod.mk.injEq, Plan.clear.injEq] at h
      exact ⟨rfl, rfl, h.1.symm, h.2.symm⟩

end Plans

structure Sound (l : Listing) (s : Session) : Prop where
  idle : s.Idle
  listing : s.listing = l
  locks : s.alignment.poisoned = true → s.aggregate.poisoned = true

theorem Sound.open_alignment {l : Listing} {s : Session} (h : Sound l s) (hp : s.aggregate.poisoned = false) :
    s.alignment.poisoned = false := by
  cases hb : s.alignment.poisoned with
  | false => rfl
  | true => exact absurd (h.locks hb) (by rw [hp]; decide)

theorem Sound.propagate {l : Listing} {s : Session} (h : Sound l s) (a : Aggregate) (p : Progress) :
    Sound l (s.propagate a p).2.1.released := by
  rw [propagate_stage]
  refine ⟨⟨rfl, rfl⟩, h.listing, fun hp => ?_⟩
  rcases Bool.or_eq_true_iff.1 hp with hp | hp
  · exact Bool.or_eq_true_iff.2 (.inl (h.locks hp))
  · exact Bool.or_eq_true_iff.2 (.inr hp)

theorem Sound.recompute {l : Listing} {s : Session} (h : Sound l s) (a : Aggregate) (p : Progress) :
    Sound l (s.recompute a p).2.1.released := by
  obtain ⟨p', -, hr⟩ := recompute_stage (Agrees.refl p) s a
  rw [hr]
  split
  · exact h.propagate _ _
  · exact ⟨⟨rfl, rfl⟩, h.listing, fun hp => Bool.or_eq_true_iff.2 (.inl (h.locks hp))⟩

theorem Sound.run {l : Listing} {s : Session} (h : Sound l s) (disk : FileSystem) (op : Operation) (p : Progress) :
    Sound l (s.run disk op p).session := by
  cases hp : plan disk op s p with
  | mk pl q =>
    cases pl with
    | answer a =>
      rw [(run_answer h.idle hp).2.1]
      exact h
    | merge a answer =>
      rw [(run_merge h.idle hp).2]
      exact h.recompute a q
    | clear a =>
      rw [(run_clear h.idle hp).2]
      exact h.propagate a q

theorem Sound.subscribe {l : Listing} {s : Session} (h : Sound l s) (u : Subscriber) : Sound l (s.subscribe u) :=
  ⟨⟨h.idle.busy, h.idle.changed⟩, h.listing, h.locks⟩

theorem Sound.decodeWith {l : Listing} {s : Session} (h : Sound l s) (d : LineDecoder) :
    Sound l { s with decoder := d } :=
  ⟨⟨h.idle.busy, h.idle.changed⟩, h.listing, h.locks⟩

theorem Sound.framed {l : Listing} {s : Session} (h : Sound l s) (us : List Subscriber) : Sound l (s.framed false us) :=
  ⟨⟨rfl, h.idle.changed⟩, h.listing, h.locks⟩

theorem History.sound {l : Listing} {s : Session} {last : Option Answer} (h : History l s last) : Sound l s := by
  induction h with
  | start => exact ⟨⟨rfl, rfl⟩, rfl, fun hp => hp⟩
  | subscribe u _ ih => exact ih.subscribe u
  | decodeWith d _ ih => exact ih.decodeWith d
  | request disk op p _ ih => exact ih.run disk op p

theorem Reachable.sound {l : Listing} {s : Session} (h : Reachable l s) : Sound l s := by
  obtain ⟨last, h⟩ := h
  exact h.sound

def smallListing : Listing :=
  (InstructionListing.ofList [⟨⟨0x10, by decide⟩, 4⟩, ⟨⟨0x14, by decide⟩, 2⟩]).toListing

def smallDisk : FileSystem := fun p =>
  if p.text = "a.cov" then .ok [0x31, 0x30, 0x2d, 0x31, 0x34, 0x0a] else .error .notFound

def mixedDisk : FileSystem := fun p =>
  if p.text = "a.cov" then .ok [0x31, 0x30, 0x2d, 0x31, 0x34, 0x0a]
  else if p.text = "b.cov" then .ok [0x31, 0x34, 0x2b, 0x32, 0x0a]
  else if p.text = "c.cov" then .ok [0x7a, 0x7a, 0x0a]
  else .error .notFound

end Session

end InstructionCoverage
