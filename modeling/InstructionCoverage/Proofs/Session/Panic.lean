import InstructionCoverage.Proofs.Session.Batch
import InstructionCoverage.Proofs.Session.Consistency
import InstructionCoverage.Proofs.Session.Notification

/-!
How far a panic gets. Before the models are locked and after they are unlocked it is contained. While they are being
recomputed it poisons the aggregate, and no later operation changes a model.
-/

namespace InstructionCoverage.Session

open Progress

inductive Stage where
  | reading
  | merging
  | aligning
  | notifying

def Strikes (disk : FileSystem) (op : Operation) (s : Session) (p : Progress) : Stage → Prop
  | .reading =>
    ∃ paths q, batch? op p = some (paths, q) ∧ (q.grant (readingPolls disk s.decoder paths)).1 = .panicked
  | .merging => ∃ a answer q, plan disk op s p = (.merge a answer, q) ∧ (a.recompute q).1 = .panicked
  | .aligning =>
    ∃ b q, merged? disk op s p = some (b, q) ∧ (s.alignment.value.follow s.listing b.published q).1 = .panicked
  | .notifying => ∃ q, recomputed? disk op s p = some q ∧ (reactions s.subscribers q).1 = .panicked

/-- The operation gets as far as locking the aggregate. Only an import can end before that: when it is stopped, and
when it has nothing to load. -/
def Locks (disk : FileSystem) (op : Operation) (s : Session) (p : Progress) : Prop :=
  ∀ paths q, batch? op p = some (paths, q) →
    goodFiles disk s.decoder paths ≠ [] ∧ (q.grant (readingPolls disk s.decoder paths)).1 = .completed

section Plans

variable {disk : FileSystem} {op : Operation} {paths : List Path} {s : Session} {p q : Progress}

theorem importPlan_unlocked (h : ¬ (goodFiles disk s.decoder paths ≠ [] ∧
      (p.grant (readingPolls disk s.decoder paths)).1 = .completed)) :
    ∃ a q, importPlan disk paths s p = (.answer a, q) ∧
      (((p.grant (readingPolls disk s.decoder paths)).1 = .panicked ∧ a = .panicked) ∨
        ((p.grant (readingPolls disk s.decoder paths)).1 ≠ .panicked ∧ ∃ r, a = .report r)) := by
  cases hread : (p.grant (readingPolls disk s.decoder paths)).1 with
  | completed =>
    have hgood : goodFiles disk s.decoder paths = [] :=
      Classical.byContradiction fun hgood => h ⟨hgood, hread⟩
    rw [readingPolls_nothing hgood] at hread
    obtain ⟨q, hplan⟩ := importPlan_nothing (s := s) hread hgood
    exact ⟨_, q, hplan, .inr ⟨by decide, _, rfl⟩⟩
  | cancelled =>
    obtain ⟨failed, q, hplan⟩ := importPlan_stopped (s := s) (by rw [hread]; decide)
    rw [hread] at hplan
    exact ⟨_, q, hplan, .inr ⟨by decide, _, rfl⟩⟩
  | panicked =>
    obtain ⟨failed, q, hplan⟩ := importPlan_stopped (s := s) (by rw [hread]; decide)
    rw [hread] at hplan
    exact ⟨_, q, hplan, .inl ⟨rfl, rfl⟩⟩

theorem plan_unlocked (h : ¬ Locks disk op s p) :
    ∃ a q, plan disk op s p = (.answer a, q) ∧
      ((Strikes disk op s p .reading ∧ a = .panicked) ∨ (¬ Strikes disk op s p .reading ∧ ∃ r, a = .report r)) := by
  cases hb : batch? op p with
  | none =>
    refine absurd ?_ h
    intro paths q hb'
    rw [hb] at hb'
    cases hb'
  | some batch =>
    obtain ⟨paths, q⟩ := batch
    rw [plan_batch hb]
    have hreading : Strikes disk op s p .reading ↔ (q.grant (readingPolls disk s.decoder paths)).1 = .panicked := by
      constructor
      · rintro ⟨paths', q', hb', hpanic⟩
        cases hb.symm.trans hb'
        exact hpanic
      · exact fun hpanic => ⟨paths, q, hb, hpanic⟩
    rw [hreading]
    apply importPlan_unlocked
    intro hloads
    apply h
    intro paths' q' hb'
    cases hb.symm.trans hb'
    exact hloads

theorem locks_not_reading (h : Locks disk op s p) : ¬ Strikes disk op s p .reading := by
  rintro ⟨paths, q, hb, hpanic⟩
  rw [(h paths q hb).2] at hpanic
  cases hpanic

theorem changePlan_read (s : Session) (step : Aggregate → Except SessionError Aggregate) :
    s.changePlan step =
      match s.aggregate.read with
      | .error e => .answer (.refused e)
      | .ok a =>
        match step a with
        | .error e => .answer (.refused e)
        | .ok b => .merge b .outcome := by
  rw [changePlan]
  cases s.aggregate.read with
  | error e => rfl
  | ok a =>
    change (match step a with | .error e => Plan.answer (.refused e) | .ok b => .merge b .outcome) = _
    rfl

section Locked

variable (h : Locks disk op s p)
include h

theorem plan_poisoned (hs : s.aggregate.poisoned = true) :
    ∃ q, plan disk op s p = (.answer (.refused .poisoned), q) := by
  have hread : s.aggregate.read = .error .poisoned := if_pos hs
  have change (step : Aggregate → Except SessionError Aggregate) :
      s.changePlan step = .answer (.refused .poisoned) := by
    rw [changePlan_read, hread]
  cases hb : batch? op p with
  | some batch =>
    obtain ⟨paths, q⟩ := batch
    obtain ⟨hgood, hpolls⟩ := h paths q hb
    rw [readingPolls_loading hgood] at hpolls
    obtain ⟨q', -, hplan⟩ := importPlan_read (s := s) hpolls hgood
    rw [hread] at hplan
    exact ⟨q', (plan_batch hb).trans hplan⟩
  | none =>
    cases op with
    | importFiles paths => cases hb
    | spawnImport paths token => cases hb
    | refresh => exact ⟨p, by rw [plan, change]⟩
    | remove path => exact ⟨p, by rw [plan, change]⟩
    | setEnabled path enabled => exact ⟨p, by rw [plan, change]⟩
    | clear => exact ⟨p, by rw [plan, hread]⟩

theorem plan_open (hs : s.aggregate.poisoned = false) :
    (∃ path q, plan disk op s p = (.answer (.refused (.unknownFile path)), q)) ∨
      (∃ a answer q, plan disk op s p = (.merge a answer, q)) ∨ ∃ a q, plan disk op s p = (.clear a, q) := by
  have hread : s.aggregate.read = .ok s.aggregate.value := if_neg (by rw [hs]; decide)
  have change (path : Path) (step : Aggregate → Option Aggregate) :
      (∃ q, (s.changePlan fun a => known path (step a), p) = (Plan.answer (.refused (.unknownFile path)), q)) ∨
        ∃ a answer q, (s.changePlan fun a => known path (step a), p) = (Plan.merge a answer, q) := by
    rw [changePlan_read, hread]
    dsimp only
    cases step s.aggregate.value with
    | none => exact .inl ⟨p, rfl⟩
    | some a => exact .inr ⟨a, .outcome, p, rfl⟩
  cases hb : batch? op p with
  | some batch =>
    obtain ⟨paths, q⟩ := batch
    obtain ⟨hgood, hpolls⟩ := h paths q hb
    rw [readingPolls_loading hgood] at hpolls
    obtain ⟨q', -, hplan⟩ := importPlan_loaded (s := s) hpolls hgood hs
    exact .inr (.inl ⟨_, _, q', (plan_batch hb).trans hplan⟩)
  | none =>
    cases op with
    | importFiles paths => cases hb
    | spawnImport paths token => cases hb
    | refresh => exact .inr (.inl ⟨s.aggregate.value, .outcome, p, by rw [plan, changePlan_read, hread]⟩)
    | clear => exact .inr (.inr ⟨_, p, by rw [plan, hread]⟩)
    | remove path => exact (change path _).imp (fun hplan => ⟨path, hplan⟩) .inl
    | setEnabled path enabled => exact (change path _).imp (fun hplan => ⟨path, hplan⟩) .inl

end Locked

end Plans

def worked? (disk : FileSystem) (op : Operation) (s : Session) (p : Progress) : Option (Ending × Session × Progress) :=
  match plan disk op s p with
  | (.answer _, _) => none
  | (.merge a _, q) => some (s.recompute a q)
  | (.clear a, q) => some (s.propagate a q)

section Worked

variable {disk : FileSystem} {op : Operation} {s : Session} {p q : Progress} {a b : Aggregate}
  {answer : Outcome → Answer} {r : Ending × Session × Progress}

theorem worked_cases (h : worked? disk op s p = some r) :
    (∃ a answer q, plan disk op s p = (.merge a answer, q) ∧ r = s.recompute a q) ∨
      ∃ a q, plan disk op s p = (.clear a, q) ∧ r = s.propagate a q := by
  rw [worked?] at h
  cases hp : plan disk op s p with
  | mk pl q =>
    rw [hp] at h
    cases pl with
    | answer a => cases h
    | merge a answer => exact .inl ⟨a, answer, q, rfl, (Option.some.inj h).symm⟩
    | clear a => exact .inr ⟨a, q, rfl, (Option.some.inj h).symm⟩

theorem worked_none (h : worked? disk op s p = none) : ∃ a q, plan disk op s p = (.answer a, q) := by
  rw [worked?] at h
  cases hp : plan disk op s p with
  | mk pl q =>
    rw [hp] at h
    cases pl with
    | answer a => exact ⟨a, q, rfl⟩
    | merge a answer => cases h
    | clear a => cases h

theorem strikes_merging_iff (hp : plan disk op s p = (.merge a answer, q)) :
    Strikes disk op s p .merging ↔ (a.recompute q).1 = .panicked := by
  constructor
  · rintro ⟨a', answer', q', hp', hpanic⟩
    cases hp.symm.trans hp'
    exact hpanic
  · exact fun hpanic => ⟨a, answer, q, hp, hpanic⟩

theorem strikes_aligning_iff (hm : merged? disk op s p = some (b, q)) :
    Strikes disk op s p .aligning ↔ (s.propagate b q).1 = .panicked := by
  have hending : (s.propagate b q).1 = (s.alignment.value.follow s.listing b.published q).1 := by
    rw [propagate]
    cases s.alignment.value.follow s.listing b.published q with
    | mk ending r => cases ending <;> rfl
  rw [hending]
  constructor
  · rintro ⟨b', q', hm', hpanic⟩
    cases hm.symm.trans hm'
    exact hpanic
  · exact fun hpanic => ⟨b, q, hm, hpanic⟩

theorem not_aligning (hm : merged? disk op s p = none) : ¬ Strikes disk op s p .aligning := by
  rintro ⟨b, q, hm', -⟩
  rw [hm] at hm'
  cases hm'

theorem worked_panicked_iff (h : worked? disk op s p = some r) :
    r.1 = .panicked ↔ Strikes disk op s p .merging ∨ Strikes disk op s p .aligning := by
  rcases worked_cases h with ⟨a, answer, q, hp, rfl⟩ | ⟨a, q, hp, rfl⟩
  · rw [strikes_merging_iff hp, recompute]
    cases hr : a.recompute q with
    | mk ending r =>
      obtain ⟨b, q'⟩ := r
      cases ending with
      | completed =>
        have hm : merged? disk op s p = some (b, q') := by simp only [merged?, hp, hr, completed?]
        rw [← strikes_aligning_iff hm]
        simp
      | cancelled =>
        have hm : merged? disk op s p = none := by simp only [merged?, hp, hr, completed?]
        simp [not_aligning hm]
      | panicked => simp
  · have hm : merged? disk op s p = some (a, q) := by rw [merged?, hp]
    have hmerging : ¬ Strikes disk op s p .merging := by
      rintro ⟨a', answer', q', hp', -⟩
      cases hp.symm.trans hp'
    rw [← strikes_aligning_iff hm]
    exact (or_iff_right hmerging).symm

theorem handleAfter_worked (h : worked? disk op s p = some r) : handleAfter r = recomputed? disk op s p := by
  rw [recomputed?, merged?]
  rcases worked_cases h with ⟨a, answer, q, hp, rfl⟩ | ⟨a, q, hp, rfl⟩
  · rw [hp]
    exact handleAfter_recompute s a q
  · rw [hp]
    exact handleAfter_propagate s a q

theorem worked_lock (h : worked? disk op s p = some r) :
    r.2.1.aggregate.poisoned = (s.aggregate.poisoned || r.1 == .panicked) := by
  rcases worked_cases h with ⟨a, answer, q, -, rfl⟩ | ⟨a, q, -, rfl⟩
  · exact recompute_lock s a q
  · exact propagate_lock s a q

theorem worked_subscribers (h : worked? disk op s p = some r) : r.2.1.subscribers = s.subscribers := by
  rcases worked_cases h with ⟨a, answer, q, -, rfl⟩ | ⟨a, q, -, rfl⟩
  · exact (setup_recompute s a q).subscribers
  · exact (setup_propagate s a q).subscribers

theorem worked_reaches (h : worked? disk op s p = some r) (hs : s.Idle) : s.reaches disk op p = true := by
  rw [reaches]
  rcases worked_cases h with ⟨a, answer, q, hp, -⟩ | ⟨a, q, hp, -⟩
  · rw [hp, hs.busy]
    rfl
  · rw [hp, hs.busy]
    rfl

theorem worked_framed (busy : Bool) (us : List Subscriber) :
    worked? disk op (s.framed busy us) p =
      (worked? disk op s p).map fun r => (r.1, r.2.1.framed busy us, r.2.2) := by
  have hplan : plan disk op (s.framed busy us) p = plan disk op s p := by cases op <;> rfl
  rw [worked?, worked?, hplan]
  cases plan disk op s p with
  | mk pl q =>
    cases pl with
    | answer a => rfl
    | clear a => exact congrArg some (propagate_framed s busy us a q)
    | merge a answer => exact congrArg some (recompute_framed s busy us a q)

theorem not_struck (h : worked? disk op s p = none) {stage : Stage} (hs : Strikes disk op s p stage) :
    stage = .reading := by
  obtain ⟨a, q, hp⟩ := worked_none h
  cases stage with
  | reading => rfl
  | merging =>
    obtain ⟨a', answer', q', hp', -⟩ := hs
    cases hp.symm.trans hp'
  | aligning =>
    obtain ⟨b, q', hm, -⟩ := hs
    rw [merged?, hp] at hm
    cases hm
  | notifying =>
    obtain ⟨q', hr, -⟩ := hs
    rw [recomputed?, merged?, hp] at hr
    cases hr

theorem run_worked (hs : s.Idle) (h : worked? disk op s p = some r) :
    ∃ answer : Outcome → Answer, (∀ o, (answer o).outcome? = some o) ∧
      (s.run disk op p).answer = settle answer r ∧ (s.run disk op p).session = r.2.1.released := by
  rcases worked_cases h with ⟨a, answer, q, hp, rfl⟩ | ⟨a, q, hp, rfl⟩
  · exact ⟨answer, (plan_merge hp).2, run_merge hs hp⟩
  · exact ⟨.outcome, fun _ => rfl, run_clear hs hp⟩

theorem run_open (hs : s.Idle) (hopen : s.aggregate.poisoned = false) (disk : FileSystem) (op : Operation)
    (p : Progress) :
    (worked? disk op s p = none ∧ (s.run disk op p).session = s ∧
      ((Strikes disk op s p .reading ∧ (s.run disk op p).answer = .panicked) ∨
        (¬ Strikes disk op s p .reading ∧ ((∃ r, (s.run disk op p).answer = .report r) ∨
          ∃ path, (s.run disk op p).answer = .refused (.unknownFile path))))) ∨
    (∃ r answer, worked? disk op s p = some r ∧ ¬ Strikes disk op s p .reading ∧
      (∀ o, Answer.outcome? (answer o) = some o) ∧
      (s.run disk op p).answer = settle answer r ∧ (s.run disk op p).session = r.2.1.released) := by
  by_cases hl : Locks disk op s p
  · have hreading := locks_not_reading hl
    have worked {r : Ending × Session × Progress} (hw : worked? disk op s p = some r) :
        ∃ r answer, worked? disk op s p = some r ∧ ¬ Strikes disk op s p .reading ∧
          (∀ o, Answer.outcome? (answer o) = some o) ∧
          (s.run disk op p).answer = settle answer r ∧ (s.run disk op p).session = r.2.1.released := by
      obtain ⟨answer, hrun⟩ := run_worked hs hw
      exact ⟨r, answer, hw, hreading, hrun⟩
    rcases plan_open hl hopen with ⟨path, q, hp⟩ | ⟨a, answer, q, hp⟩ | ⟨a, q, hp⟩
    · obtain ⟨hanswer, hsession, -⟩ := run_answer hs hp
      exact .inl ⟨by rw [worked?, hp], hsession, .inr ⟨hreading, .inr ⟨path, hanswer⟩⟩⟩
    · exact .inr (worked (by rw [worked?, hp]))
    · exact .inr (worked (by rw [worked?, hp]))
  · obtain ⟨a, q, hp, ha⟩ := plan_unlocked hl
    obtain ⟨hanswer, hsession, -⟩ := run_answer hs hp
    rw [hanswer]
    refine .inl ⟨by rw [worked?, hp], hsession, ha.imp_right ?_⟩
    rintro ⟨hreading, hreport⟩
    exact ⟨hreading, .inl hreport⟩

theorem settle_panicked_iff (ha : ∀ o, (answer o).outcome? = some o) :
    settle answer r = .panicked ↔
      r.1 = .panicked ∨ ∃ q, handleAfter r = some q ∧ (reactions r.2.1.subscribers q).1 = .panicked := by
  have hne (o : Outcome) : answer o ≠ .panicked := (outcome_ne (ha o)).1
  obtain ⟨ending, s, q⟩ := r
  cases ending with
  | panicked => simp [settle]
  | cancelled => simp [settle, handleAfter, completed?, hne]
  | completed =>
    cases hreact : (reactions s.subscribers q).1 <;> simp [settle, handleAfter, completed?, hreact, hne]

theorem run_panicked_iff (hs : s.Idle) (hopen : s.aggregate.poisoned = false) :
    (s.run disk op p).answer = .panicked ↔ ∃ stage, Strikes disk op s p stage := by
  rcases run_open hs hopen disk op p with
    ⟨hw, -, ⟨hreading, hanswer⟩ | ⟨hreading, hanswer⟩⟩ | ⟨r, answer, hw, hreading, ha, hanswer, -⟩
  · exact ⟨fun _ => ⟨.reading, hreading⟩, fun _ => hanswer⟩
  · constructor
    · intro hpanic
      rcases hanswer with ⟨r, hr⟩ | ⟨path, hr⟩ <;> cases hr.symm.trans hpanic
    · rintro ⟨stage, hstage⟩
      cases not_struck hw hstage
      exact absurd hstage hreading
  · rw [hanswer, settle_panicked_iff ha, worked_panicked_iff hw, handleAfter_worked hw, worked_subscribers hw]
    constructor
    · rintro ((hmerging | haligning) | hnotifying)
      · exact ⟨.merging, hmerging⟩
      · exact ⟨.aligning, haligning⟩
      · exact ⟨.notifying, hnotifying⟩
    · rintro ⟨stage, hstage⟩
      cases stage with
      | reading => exact absurd hstage hreading
      | merging => exact .inl (.inl hstage)
      | aligning => exact .inl (.inr hstage)
      | notifying => exact .inr hstage

end Worked

inductive Later (Allowed : FileSystem → Operation → Session → Progress → Prop) (s : Session) : Session → Prop
  | here : Later Allowed s s
  | subscribe {t : Session} (u : Subscriber) (h : Later Allowed s t) : Later Allowed s (t.subscribe u)
  | decodeWith {t : Session} (d : LineDecoder) (h : Later Allowed s t) : Later Allowed s { t with decoder := d }
  | request {t : Session} (disk : FileSystem) (op : Operation) (p : Progress) (h : Later Allowed s t)
      (ha : Allowed disk op t p) : Later Allowed s (t.run disk op p).session

def Anything (_ : FileSystem) (_ : Operation) (_ : Session) (_ : Progress) : Prop := True

def Harmless (disk : FileSystem) (op : Operation) (s : Session) (p : Progress) : Prop :=
  ¬ Strikes disk op s p .merging ∧ ¬ Strikes disk op s p .aligning

structure Usable (s : Session) : Prop where
  files : ∃ v, s.files = .ok v
  raw : ∃ v, s.rawRanges = .ok v
  hits : ∃ v, s.hits = .ok v
  states : ∃ v, s.states = .ok v
  summary : ∃ v, s.summary = .ok v
  performs : ∀ disk op p, (s.run disk op p).answer ≠ .refused .busy ∧ (s.run disk op p).answer ≠ .refused .poisoned

structure Lost (s : Session) : Prop where
  fixed : ∀ t, Later Anything s t → t.aggregate = s.aggregate ∧ t.alignment = s.alignment
  refuses : ∀ t, Later Anything s t → ∀ disk op p,
    (t.run disk op p).answer = .refused .poisoned ↔ Locks disk op t p

structure NewState (disk : FileSystem) (op : Operation) (s : Session) (p : Progress) (t : Session) : Prop where
  completes : ((s.framed false []).run disk op p).answer.outcome? = some .completed
  session : ((s.framed false []).run disk op p).session = t.framed false []
  subscribers : t.subscribers = s.subscribers
  consistent : Consistent t

section Later

variable {l : Listing} {s t : Session} {disk : FileSystem} {op : Operation} {p : Progress}

theorem run_performs (hs : s.Idle) (hopen : s.aggregate.poisoned = false) :
    (s.run disk op p).answer ≠ .refused .busy ∧ (s.run disk op p).answer ≠ .refused .poisoned := by
  rcases run_open hs hopen disk op p with
    ⟨-, -, ⟨-, hanswer⟩ | ⟨-, ⟨r, hanswer⟩ | ⟨path, hanswer⟩⟩⟩ | ⟨r, answer, -, -, ha, hanswer, -⟩
  · simp [hanswer]
  · simp [hanswer]
  · simp [hanswer]
  · rw [hanswer]
    exact ⟨settle_refused ha r .busy, settle_refused ha r .poisoned⟩

theorem usable_of_open (hs : Sound l s) (hopen : s.aggregate.poisoned = false) : Usable s := by
  have halignment := hs.open_alignment hopen
  have haggregate : s.aggregate.read = .ok s.aggregate.value := if_neg (by rw [hopen]; decide)
  have hread : s.alignment.read = .ok s.alignment.value := if_neg (by rw [halignment]; decide)
  exact
    { files := ⟨_, by rw [Session.files, haggregate]; rfl⟩
      raw := ⟨_, by rw [rawRanges, haggregate]; rfl⟩
      hits := ⟨_, by rw [Session.hits, hread]; rfl⟩
      states := ⟨_, by rw [Session.states, haggregate, hread]; rfl⟩
      summary := ⟨_, by rw [Session.summary, hread]; rfl⟩
      performs := fun _ _ _ => run_performs hs.idle hopen }

theorem run_harmless (hs : s.Idle) (hopen : s.aggregate.poisoned = false) (h : Harmless disk op s p) :
    (s.run disk op p).session.aggregate.poisoned = false := by
  rcases run_open hs hopen disk op p with
    ⟨-, hsession, -⟩ | ⟨r, answer, hw, -, -, -, hsession⟩
  · rw [hsession, hopen]
  · have hne : r.1 ≠ .panicked := fun hpanic => ((worked_panicked_iff hw).1 hpanic).elim h.1 h.2
    rw [hsession]
    change r.2.1.aggregate.poisoned = false
    simp [worked_lock hw, hopen, hne]

theorem Later.usable (h : Later Harmless s t) (hs : Sound l s) (hopen : s.aggregate.poisoned = false) :
    Usable t := by
  have hkept : Sound l t ∧ t.aggregate.poisoned = false := by
    induction h with
    | here => exact ⟨hs, hopen⟩
    | subscribe u _ ih => exact ⟨ih.1.subscribe u, ih.2⟩
    | decodeWith d _ ih => exact ⟨ih.1.decodeWith d, ih.2⟩
    | request disk op p _ ha ih => exact ⟨ih.1.run disk op p, run_harmless ih.1.idle ih.2 ha⟩
  exact usable_of_open hkept.1 hkept.2

theorem run_lost (hs : s.Idle) (hp : s.aggregate.poisoned = true) (disk : FileSystem) (op : Operation) (p : Progress) :
    (s.run disk op p).session = s ∧ ((s.run disk op p).answer = .refused .poisoned ↔ Locks disk op s p) := by
  by_cases hl : Locks disk op s p
  · obtain ⟨q, hplan⟩ := plan_poisoned hl hp
    obtain ⟨hanswer, hsession, -⟩ := run_answer hs hplan
    exact ⟨hsession, fun _ => hl, fun _ => hanswer⟩
  · obtain ⟨a, q, hplan, ha⟩ := plan_unlocked hl
    obtain ⟨hanswer, hsession, -⟩ := run_answer hs hplan
    refine ⟨hsession, fun hrefused => ?_, fun hl' => absurd hl' hl⟩
    rw [hanswer] at hrefused
    rcases ha with ⟨-, ha⟩ | ⟨-, r, ha⟩ <;> cases ha.symm.trans hrefused

theorem Later.kept (h : Later Anything s t) (hs : Sound l s) (hp : s.aggregate.poisoned = true) :
    Sound l t ∧ t.aggregate = s.aggregate ∧ t.alignment = s.alignment := by
  induction h with
  | here => exact ⟨hs, rfl, rfl⟩
  | subscribe u _ ih => exact ⟨ih.1.subscribe u, ih.2⟩
  | decodeWith d _ ih => exact ⟨ih.1.decodeWith d, ih.2⟩
  | request disk op p _ _ ih =>
    obtain ⟨hsession, -⟩ := run_lost ih.1.idle (by rw [ih.2.1, hp]) disk op p
    rw [hsession]
    exact ih

theorem lost_of_poisoned (hs : Sound l s) (hp : s.aggregate.poisoned = true) : Lost s where
  fixed := fun _ ht => (ht.kept hs hp).2
  refuses := by
    intro t ht disk op p
    obtain ⟨hidle, haggregate, -⟩ := ht.kept hs hp
    exact (run_lost hidle.idle (by rw [haggregate, hp]) disk op p).2

theorem run_poisoned (hs : s.Idle) (hopen : s.aggregate.poisoned = false) (h : ¬ Harmless disk op s p) :
    (s.run disk op p).session.aggregate.poisoned = true := by
  have hstruck : Strikes disk op s p .merging ∨ Strikes disk op s p .aligning := by
    rw [Harmless, ← not_or] at h
    exact Classical.not_not.1 h
  rcases run_open hs hopen disk op p with
    ⟨hw, -, -⟩ | ⟨r, answer, hw, -, -, -, hsession⟩
  · rcases hstruck with hmerging | haligning
    · cases not_struck hw hmerging
    · cases not_struck hw haligning
  · have hpanic : r.1 = .panicked := (worked_panicked_iff hw).2 hstruck
    rw [hsession]
    change r.2.1.aggregate.poisoned = true
    simp [worked_lock hw, hpanic]

theorem merging_alignment (hs : s.Idle) (h : Strikes disk op s p .merging) :
    (s.run disk op p).session.alignment = s.alignment := by
  obtain ⟨a, answer, q, hplan, hpanic⟩ := h
  rw [(run_merge hs hplan).2, recompute]
  cases hr : a.recompute q with
  | mk ending r =>
    rw [hr] at hpanic
    cases hpanic
    rfl

theorem run_struck_reading (hs : s.Idle) (hopen : s.aggregate.poisoned = false) (h : Strikes disk op s p .reading) :
    (s.run disk op p).session = s := by
  rcases run_open hs hopen disk op p with
    ⟨-, hsession, -⟩ | ⟨r, answer, -, hreading, -⟩
  · exact hsession
  · exact absurd h hreading

theorem run_struck_notifying (hs : Sound l s) (hopen : s.aggregate.poisoned = false)
    (h : Strikes disk op s p .notifying) :
    Harmless disk op s p ∧ NewState disk op s p (s.run disk op p).session := by
  rcases run_open hs.idle hopen disk op p with ⟨hw, -, -⟩ | ⟨r, answer, hw, -, -, -, hsession⟩
  · cases not_struck hw h
  obtain ⟨q, hq, -⟩ := h
  have hending : r.1 = .completed := by
    rw [← handleAfter_worked hw] at hq
    obtain ⟨ending, t, q'⟩ := r
    cases ending with
    | completed => rfl
    | cancelled => cases hq
    | panicked => cases hq
  have hharmless : ¬ (Strikes disk op s p .merging ∨ Strikes disk op s p .aligning) := by
    rw [← worked_panicked_iff hw, hending]
    decide
  -- Without subscribers the same work is done, and nothing is left that could stop the operation.
  have hframed : worked? disk op (s.framed false []) p = some (.completed, r.2.1.framed false [], r.2.2) := by
    rw [worked_framed, hw, ← hending]
    rfl
  have hsound := hs.framed []
  obtain ⟨answer', ha, hanswer, hleft⟩ := run_worked hsound.idle hframed
  have hcompletes : ((s.framed false []).run disk op p).answer.outcome? = some .completed := by
    rw [hanswer]
    exact ha .completed
  have hsame : ((s.framed false []).run disk op p).session = (s.run disk op p).session.framed false [] := by
    rw [hleft, hsession]
    rfl
  have hconsistent := consistent_run hsound (worked_reaches hframed hsound.idle) hcompletes
  rw [hsame] at hconsistent
  refine ⟨⟨fun hm => hharmless (.inl hm), fun ha => hharmless (.inr ha)⟩, hcompletes, hsame, ?_, ?_⟩
  · rw [hsession]
    exact worked_subscribers hw
  · exact ⟨hconsistent.aggregate, hconsistent.alignment, hconsistent.union, hconsistent.hits⟩

end Later

/-- A panic while files are read leaves the session alone. One of a subscriber leaves the new state behind, and both
leave the session usable. One while the models are recomputed takes them away for good; the hits can still be read
if the alignment was not locked yet. -/
theorem panic_contained {l : Listing} {s : Session} (h : Reachable l s) (hopen : s.aggregate.poisoned = false)
    (disk : FileSystem) (op : Operation) (p : Progress) :
    let t := (s.run disk op p).session
    ((s.run disk op p).answer = .panicked ↔ ∃ stage, Strikes disk op s p stage) ∧
    (Strikes disk op s p .reading → t = s ∧ ∀ u, Later Harmless t u → Usable u) ∧
    (Strikes disk op s p .notifying → NewState disk op s p t ∧ ∀ u, Later Harmless t u → Usable u) ∧
    (Strikes disk op s p .merging ∨ Strikes disk op s p .aligning → Lost t) ∧
    (Strikes disk op s p .merging → ∃ hits summary, s.hits = .ok hits ∧ s.summary = .ok summary ∧
      ∀ u, Later Anything t u → u.hits = .ok hits ∧ u.summary = .ok summary) := by
  intro t
  have hs := h.sound
  have ht : Sound l t := hs.run disk op p
  have lost (hstruck : Strikes disk op s p .merging ∨ Strikes disk op s p .aligning) :
      t.aggregate.poisoned = true :=
    run_poisoned hs.idle hopen fun hharmless => hstruck.elim hharmless.1 hharmless.2
  refine ⟨run_panicked_iff hs.idle hopen, ?_, ?_, ?_, ?_⟩
  · intro hreading
    have hsame : t = s := run_struck_reading hs.idle hopen hreading
    refine ⟨hsame, fun u hu => ?_⟩
    rw [hsame] at hu
    exact hu.usable hs hopen
  · intro hnotifying
    obtain ⟨hharmless, hnew⟩ := run_struck_notifying hs hopen hnotifying
    exact ⟨hnew, fun u hu => hu.usable ht (run_harmless hs.idle hopen hharmless)⟩
  · exact fun hstruck => lost_of_poisoned ht (lost hstruck)
  · intro hmerging
    obtain ⟨hits, hhits⟩ := (usable_of_open hs hopen).hits
    obtain ⟨summary, hsummary⟩ := (usable_of_open hs hopen).summary
    refine ⟨hits, summary, hhits, hsummary, fun u hu => ?_⟩
    obtain ⟨hu, -, hkept⟩ := hu.kept ht (lost (.inl hmerging))
    rw [← hhits, ← hsummary, Session.hits, Session.hits, Session.summary, Session.summary, hkept,
      merging_alignment hs.idle hmerging, hu.listing, hs.listing]
    exact ⟨rfl, rfl⟩

def oneInstruction : Listing :=
  InstructionListing.toListing ⟨[⟨⟨0x11, by decide⟩, 2⟩], [], by decide⟩

def importedSession : Session :=
  ((ofListing oneInstruction).run smallDisk (.importFiles [⟨"a.cov"⟩]) .unbounded).session

def struckImport : Run :=
  importedSession.run smallDisk (.importFiles [⟨"a.cov"⟩]) (.panicAfter 2)

def refreshAfter : Run :=
  struckImport.session.run smallDisk .refresh .unbounded

theorem panic_contained_merging :
    Reachable oneInstruction importedSession ∧ importedSession.aggregate.poisoned = false ∧
      struckImport.answer = .panicked ∧ refreshAfter.answer = .refused .poisoned ∧
      ∃ hits, importedSession.hits = .ok hits ∧ hits.length = 1 ∧ refreshAfter.session.hits = .ok hits := by
  have h : Reachable oneInstruction importedSession := ⟨_, History.start.request _ _ _⟩
  have hopen : importedSession.aggregate.poisoned = false := by decide +kernel
  obtain ⟨hpanicked, -, -, hlost, hkept⟩ :=
    panic_contained h hopen smallDisk (.importFiles [⟨"a.cov"⟩]) (.panicAfter 2)
  have hmerging : Strikes smallDisk (.importFiles [⟨"a.cov"⟩]) importedSession (.panicAfter 2) .merging := by
    have hended : (match plan smallDisk (.importFiles [⟨"a.cov"⟩]) importedSession (.panicAfter 2) with
        | (.merge a _, q) => (a.recompute q).1
        | _ => .completed) = .panicked := by decide +kernel
    cases hp : plan smallDisk (.importFiles [⟨"a.cov"⟩]) importedSession (.panicAfter 2) with
    | mk pl q =>
      rw [hp] at hended
      cases pl with
      | merge a answer => exact ⟨a, answer, q, hp, hended⟩
      | answer a => cases hended
      | clear a => cases hended
  obtain ⟨hits, summary, hhits, -, hlater⟩ := hkept hmerging
  refine ⟨h, hopen, hpanicked.2 ⟨.merging, hmerging⟩, ?_, hits, hhits, ?_, ?_⟩
  · apply ((hlost (.inl hmerging)).refuses _ .here smallDisk .refresh .unbounded).2
    intro paths q hb
    cases hb
  · have hlength : importedSession.hits.toOption.map List.length = some 1 := by decide +kernel
    rw [hhits] at hlength
    exact Option.some.inj hlength
  · exact (hlater _ (.request smallDisk .refresh .unbounded .here trivial)).1

end InstructionCoverage.Session
