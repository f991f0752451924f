import InstructionCoverage.Proofs.Session.History

namespace InstructionCoverage

open Progress

theorem Aggregate.publish_hollow {a : Aggregate} (h : a.files.entries = []) : a.publish a.files.union = .empty := by
  obtain ⟨⟨entries, ascending⟩, union, published, state⟩ := a
  cases h
  rfl

namespace Session

variable {l : Listing} {s : Session}

structure Hollow (s : Session) : Prop where
  aggregate : s.aggregate.value = .empty
  alignment : s.alignment.value = .empty

theorem propagate_hollow (s : Session) (p : Progress) : Hollow (s.propagate .empty p).2.1.released := by
  rw [propagate_stage]
  exact ⟨rfl, rfl⟩

theorem recompute_hollow (s : Session) {a : Aggregate} (h : a.files.entries = []) (p : Progress) :
    Hollow (s.recompute a p).2.1.released := by
  obtain ⟨q, -, hr⟩ := recompute_stage (Agrees.refl p) s a
  have hsize : a.files.size = 0 := by rw [FileTable.size, h, List.length_nil]
  rw [hr, hsize, grant_zero, if_pos rfl, Aggregate.publish_hollow h]
  exact propagate_hollow s q

theorem History.hollow {last : Option Answer} (h : History l s last) (he : s.aggregate.value.files.entries = []) :
    Hollow s := by
  induction h with
  | start => exact ⟨rfl, rfl⟩
  | subscribe u _ ih =>
    obtain ⟨haggregate, halignment⟩ := ih he
    exact ⟨haggregate, halignment⟩
  | decodeWith d _ ih =>
    obtain ⟨haggregate, halignment⟩ := ih he
    exact ⟨haggregate, halignment⟩
  | @request s last disk op p h ih =>
    have hidle := h.sound.idle
    cases hp : plan disk op s p with
    | mk pl q =>
      cases pl with
      | answer a =>
        rw [(run_answer hidle hp).2.1] at he ⊢
        exact ih he
      | merge a answer =>
        rw [(run_merge hidle hp).2] at he ⊢
        apply recompute_hollow
        rw [← recompute_files s a q]
        exact he
      | clear a =>
        obtain ⟨-, -, rfl, -⟩ := plan_clear hp
        rw [(run_clear hidle hp).2]
        exact propagate_hollow s q

theorem Reachable.renewed {t : Session} (h : Reachable l t) (hsetup : SameSetup s t)
    (hopen : t.aggregate.poisoned = false) (he : t.aggregate.value.files.entries = []) :
    t = { ofListing l with decoder := s.decoder, subscribers := s.subscribers } := by
  have ht := h.sound
  have halignment := ht.open_alignment hopen
  obtain ⟨last, hlast⟩ := h
  obtain ⟨hfiles, hhits⟩ := hlast.hollow he
  rw [← hsetup.decoder, ← hsetup.subscribers]
  obtain ⟨listing, decoder, ⟨a, aggregatePoisoned⟩, ⟨b, alignmentPoisoned⟩, busy, changed, subscribers⟩ := t
  cases ht.listing
  cases ht.idle.busy
  cases ht.idle.changed
  cases hopen
  cases halignment
  cases hfiles
  cases hhits
  rfl

theorem clear_hollow (hs : s.Idle) (hopen : s.aggregate.poisoned = false) (disk : FileSystem) (p : Progress) :
    let r := s.run disk .clear p
    r.session.aggregate.poisoned = false ∧ r.session.aggregate.value.files.entries = [] ∧
      ∀ e, r.answer ≠ .refused e := by
  intro r
  have hplan : plan disk .clear s p = (.clear .empty, p) := by
    rw [plan, Guarded.read, hopen]
    rfl
  obtain ⟨hanswer, hsession⟩ := run_clear hs hplan
  refine ⟨?_, ?_, ?_⟩
  · rw [hsession]
    exact (propagate_lock s .empty p).trans (by rw [propagate_stage, hopen]; rfl)
  · rw [hsession, (propagate_hollow s p).aggregate]
    rfl
  · rw [hanswer]
    exact settle_refused (fun _ => rfl) _

theorem recompute_calm (s : Session) (a : Aggregate) {p : Progress} (h : p.Calm) :
    (s.recompute a p).1 ≠ .panicked := by
  obtain ⟨q, hq, hr⟩ := recompute_stage (Agrees.refl p) s a
  have hcalm : q.Calm := h.of_answers (hq.1.trans (grant_answers _ _))
  rw [hr]
  split
  · rw [propagate_stage]
    exact hcalm.grant _
  · exact h.grant _

theorem merge_calm (hs : s.Idle) {disk : FileSystem} {op : Operation} {p q : Progress} {a : Aggregate}
    {answer : Outcome → Answer} (hplan : plan disk op s p = (.merge a answer, q)) (hq : q.Calm) :
    let r := s.run disk op p
    r.session.aggregate.poisoned = false ∧ r.session.aggregate.value.files = a.files ∧ ∀ e, r.answer ≠ .refused e := by
  intro r
  obtain ⟨hopen, houtcome⟩ := plan_merge hplan
  obtain ⟨hanswer, hsession⟩ := run_merge hs hplan
  refine ⟨?_, ?_, ?_⟩
  · rw [hsession]
    exact (recompute_lock s a q).trans (by simp [hopen, recompute_calm s a hq])
  · rw [hsession]
    exact recompute_files s a q
  · rw [hanswer]
    exact settle_refused houtcome _

theorem plan_remove (hopen : s.aggregate.poisoned = false) (disk : FileSystem) {path : Path}
    (hpath : s.aggregate.value.files.contains path = true) (p : Progress) :
    plan disk (.remove path) s p =
      (.merge { s.aggregate.value with files := s.aggregate.value.files.erase path } .outcome, p) := by
  rw [plan, changePlan, Guarded.read, hopen]
  simp [bind, Except.bind, Aggregate.remove?, hpath, known]

theorem removals_calm (h : Reachable l s) (hopen : s.aggregate.poisoned = false) (disk : FileSystem)
    (removals : List (Path × Progress)) (hcalm : ∀ r ∈ removals, r.2.Calm)
    (hkeys : (removals.map fun r => r.1.key).Perm s.aggregate.value.files.keys) :
    let rs := runAll disk (removals.map fun r => (.remove r.1, r.2)) s
    Reachable l rs.2 ∧ SameSetup s rs.2 ∧ rs.2.aggregate.poisoned = false ∧ rs.2.aggregate.value.files.entries = [] ∧
      ∀ a ∈ rs.1, ∀ e, a ≠ .refused e := by
  induction removals generalizing s with
  | nil =>
    exact ⟨h, SameSetup.refl s, hopen, List.map_eq_nil_iff.1 hkeys.symm.eq_nil, fun a ha => absurd ha List.not_mem_nil⟩
  | cons r removals ih =>
    obtain ⟨path, p⟩ := r
    obtain ⟨hp, hcalm⟩ := List.forall_mem_cons.1 hcalm
    obtain ⟨hpath, hrest⟩ := List.cons_perm_iff_perm_erase.1 hkeys
    have hcontains := (FileTable.contains_iff_mem_keys _ _).2 hpath
    obtain ⟨hopen', hfiles, hanswer⟩ := merge_calm h.sound.idle (plan_remove hopen disk hcontains p) hp
    dsimp only at hfiles
    rw [← FileTable.keys_erase, ← hfiles] at hrest
    obtain ⟨hreachable, hsetup, hlast, hempty, hanswers⟩ := ih (h.run disk (.remove path) p) hopen' hcalm hrest
    exact ⟨hreachable, (setup_run h.sound.idle disk (.remove path) p).trans hsetup, hlast, hempty,
      List.forall_mem_cons.2 ⟨hanswer, hanswers⟩⟩

/-- Clearing a session, or removing its files one by one, makes it a new one with its decoder and its subscribers.
Neither cancelled removals nor what subscribers do leaves a trace, and no request is refused. -/
theorem emptied_new (h : Reachable l s) (hopen : s.aggregate.poisoned = false) (disk : FileSystem) :
    let new := { ofListing l with decoder := s.decoder, subscribers := s.subscribers }
    (∀ p, (s.run disk .clear p).session = new ∧ ∀ e, (s.run disk .clear p).answer ≠ .refused e) ∧
    (∀ removals : List (Path × Progress), (∀ r ∈ removals, r.2.Calm) →
      (removals.map fun r => r.1.key).Perm (s.aggregate.value.files.entries.map fun e => e.path.key) →
      let rs := runAll disk (removals.map fun r => (.remove r.1, r.2)) s
      rs.2 = new ∧ ∀ a ∈ rs.1, ∀ e, a ≠ .refused e) := by
  intro new
  have hidle := h.sound.idle
  constructor
  · intro p
    obtain ⟨hcleared, hempty, hanswer⟩ := clear_hollow hidle hopen disk p
    exact ⟨(h.run disk .clear p).renewed (setup_run hidle disk .clear p) hcleared hempty, hanswer⟩
  · intro removals hcalm hkeys
    obtain ⟨hreachable, hsetup, hremoved, hempty, hanswers⟩ := removals_calm h hopen disk removals hcalm hkeys
    exact ⟨hreachable.renewed hsetup hremoved hempty, hanswers⟩

def decliningTwo : Session :=
  (((ofListing smallListing).subscribe ⟨"declining", [.clear], .cancel⟩).run mixedDisk
    (.importFiles [⟨"a.cov"⟩, ⟨"b.cov"⟩]) .unbounded).session

def twoRemovals : List (Path × Progress) :=
  [(⟨"b.cov"⟩, .cancelAfter 0), (⟨"a.cov/"⟩, .cancelAfter 0)]

theorem emptied_new_declining :
    Reachable smallListing decliningTwo ∧ decliningTwo.aggregate.poisoned = false ∧
      (∀ r ∈ twoRemovals, r.2.Calm) ∧
      let rs := runAll mixedDisk (twoRemovals.map fun r => (.remove r.1, r.2)) decliningTwo
      rs.1 = [.outcome .cancelled, .outcome .cancelled] ∧
        rs.2 = (decliningTwo.run mixedDisk .clear (.cancelAfter 0)).session := by
  have hreachable : Reachable smallListing decliningTwo := ⟨_, (History.start.subscribe _).request _ _ _⟩
  have hopen : decliningTwo.aggregate.poisoned = false := by decide +kernel
  have hcalm : ∀ r ∈ twoRemovals, r.2.Calm := by
    simp [twoRemovals, cancelAfter_calm]
  obtain ⟨hclear, hremove⟩ := emptied_new hreachable hopen mixedDisk
  obtain ⟨hnew, -⟩ := hremove twoRemovals hcalm (by decide +kernel)
  exact ⟨hreachable, hopen, hcalm, by decide +kernel, hnew.trans (hclear (.cancelAfter 0)).1.symm⟩

end Session

end InstructionCoverage
