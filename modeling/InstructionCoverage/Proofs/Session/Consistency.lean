import InstructionCoverage.Proofs.Session.History

namespace InstructionCoverage

open Progress

namespace Session

structure Consistent (s : Session) : Prop where
  aggregate : s.aggregate.poisoned = false
  alignment : s.alignment.poisoned = false
  union : s.aggregate.value.union = s.aggregate.value.files.union
  hits : s.alignment.value.hits = Alignment.hitsOf s.listing s.aggregate.value.files.union

theorem settle_completed {answer : Outcome → Answer} {r : Ending × Session × Progress}
    (ha : ∀ o, (answer o).outcome? = some o) (h : (settle answer r).outcome? = some .completed) : r.1 = .completed := by
  obtain ⟨ending, s, p⟩ := r
  cases ending with
  | completed => rfl
  | cancelled =>
    rw [settle, ha] at h
    cases h
  | panicked => cases h

theorem consistent_propagate {l : Listing} {s : Session} (hs : Sound l s) (hp : s.aggregate.poisoned = false)
    (a : Aggregate) (p : Progress) (h : (s.propagate (a.publish a.files.union) p).1 = .completed) :
    Consistent (s.propagate (a.publish a.files.union) p).2.1.released := by
  have hb := hs.open_alignment hp
  rw [propagate_stage] at h ⊢
  dsimp only at h ⊢
  rw [h]
  refine ⟨by simp [released, hp], by simp [released, hb], ?_, ?_⟩
  · simp [released]
  · simp only [released, Alignment.followed, Aggregate.publish_files]
    exact Aggregate.hits_ofPublished s.listing a

theorem consistent_recompute {l : Listing} {s : Session} (hs : Sound l s) (hp : s.aggregate.poisoned = false)
    (a : Aggregate) (p : Progress) (h : (s.recompute a p).1 = .completed) :
    Consistent (s.recompute a p).2.1.released := by
  obtain ⟨p', -, hr⟩ := recompute_stage (Agrees.refl p) s a
  rw [hr] at h ⊢
  split at h
  · rw [if_pos (by assumption)]
    exact consistent_propagate hs hp a p' h
  · exact absurd h (by assumption)

theorem consistent_run {l : Listing} {s : Session} (hs : Sound l s) {disk : FileSystem} {op : Operation} {p : Progress}
    (hr : s.reaches disk op p = true) (h : (s.run disk op p).answer.outcome? = some .completed) :
    Consistent (s.run disk op p).session := by
  cases hp : plan disk op s p with
  | mk pl q =>
    cases pl with
    | answer a =>
      rw [reaches, hp] at hr
      cases hr
    | merge a answer =>
      obtain ⟨hpoison, houtcome⟩ := plan_merge hp
      obtain ⟨ha, hsession⟩ := run_merge hs.idle hp
      rw [ha] at h
      rw [hsession]
      exact consistent_recompute hs hpoison a q (settle_completed houtcome h)
    | clear a =>
      obtain ⟨-, hpoison, rfl, -⟩ := plan_clear hp
      obtain ⟨ha, hsession⟩ := run_clear hs.idle hp
      rw [ha] at h
      rw [hsession]
      exact consistent_propagate hs hpoison .empty q (settle_completed (fun _ => rfl) h)

theorem run_not_reaching {l : Listing} {s : Session} (hs : Sound l s) {disk : FileSystem} {op : Operation}
    {p : Progress} (hr : ¬ s.reaches disk op p = true) : (s.run disk op p).session = s := by
  cases hp : plan disk op s p with
  | mk pl q =>
    cases pl with
    | answer a => exact (run_answer hs.idle hp).2.1
    | merge a answer => exact absurd (by rw [reaches, hp, hs.idle.busy]; rfl) hr
    | clear a => exact absurd (by rw [reaches, hp, hs.idle.busy]; rfl) hr

theorem History.consistent {l : Listing} {s : Session} {last : Option Answer} (h : History l s last)
    (hc : last.bind Answer.outcome? = some .completed) : Consistent s := by
  induction h with
  | start => cases hc
  | subscribe u _ ih => exact ⟨(ih hc).aggregate, (ih hc).alignment, (ih hc).union, (ih hc).hits⟩
  | decodeWith d _ ih => exact ⟨(ih hc).aggregate, (ih hc).alignment, (ih hc).union, (ih hc).hits⟩
  | @request s last disk op p h ih =>
    by_cases hr : s.reaches disk op p = true
    · rw [if_pos hr] at hc
      exact consistent_run h.sound hr hc
    · rw [if_neg hr] at hc
      rw [run_not_reaching h.sound hr]
      exact ih hc

def contributions (s : Session) : List (RangeSet × Bool) :=
  s.aggregate.value.files.entries.map fun e => (e.file.ranges, e.enabled)

theorem union_eq_contributions (s : Session) :
    s.aggregate.value.files.union = (s.contributions.filter Prod.snd).flatMap fun c => c.1.toList := by
  rw [contributions, List.filter_map, List.flatMap_map, FileTable.union]
  rfl

/-- Once the latest operation that reached the aggregate has completed, what can be read is the union of the loaded
and enabled files and the alignment of that union, and nothing else of the history shows. -/
theorem chain_consistent {l : Listing} {s : Session} {a : Answer} (h : History l s (some a))
    (hc : a.outcome? = some .completed) :
    s.rawRanges = .ok s.aggregate.value.files.union ∧
      (∃ hits found q, s.hits = .ok hits ∧
        Alignment.align l s.aggregate.value.files.union [] .unbounded = (.completed, found, q) ∧
        hits.Pairwise (· < ·) ∧ ∀ r, r ∈ hits ↔ r ∈ found) ∧
      ∀ {t : Session} {b : Answer}, History l t (some b) → b.outcome? = some .completed →
        t.contributions = s.contributions → t.rawRanges = s.rawRanges ∧ t.hits = s.hits := by
  have hs := h.consistent hc
  have read {t : Session} (ht : Consistent t) : t.rawRanges = .ok t.aggregate.value.files.union ∧
      t.hits = .ok (Alignment.hitsOf t.listing t.aggregate.value.files.union).toList := by
    rw [rawRanges, hits, Guarded.read, Guarded.read, ht.aggregate, ht.alignment, ← ht.hits]
    exact ⟨congrArg Except.ok ht.union, rfl⟩
  refine ⟨(read hs).1, ?_, ?_⟩
  · obtain ⟨hending, -, hfound⟩ := Alignment.align_stage l s.aggregate.value.files.union [] .unbounded
    have hg := unbounded_lenient.grant s.aggregate.value.files.union.length
    refine ⟨_, _, _, (read hs).2, Prod.ext (hending.trans hg) (Prod.ext (hfound hg) rfl), RangeSet.ascending _, ?_⟩
    intro r
    rw [h.sound.listing, ← RangeSet.mem_def, Alignment.hitsOf, RangeSet.mem_ofList, List.nil_append]
  · intro t b ht hb hcontents
    have ht' := ht.consistent hb
    rw [(read hs).1, (read hs).2, (read ht').1, (read ht').2, h.sound.listing, ht.sound.listing,
      union_eq_contributions, union_eq_contributions, hcontents]
    exact ⟨rfl, rfl⟩

def cancelledImport : Run :=
  (ofListing smallListing).run smallDisk (.importFiles [⟨"a.cov"⟩]) (.cancelAfter 3)

def repeatedImport : Run :=
  cancelledImport.session.run smallDisk (.importFiles [⟨"a.cov"⟩]) (.cancelAfter 4)

def unknownRemoval : Run :=
  repeatedImport.session.run smallDisk (.remove ⟨"b.cov"⟩) (.cancelAfter 0)

theorem chain_consistent_after_cut_import :
    History smallListing unknownRemoval.session (some repeatedImport.answer) ∧
      repeatedImport.answer.outcome? = some .completed ∧
      unknownRemoval.session.rawRanges = .ok unknownRemoval.session.aggregate.value.files.union ∧
      unknownRemoval.session.aggregate.value.files.union.length = 1 := by
  have hcompleted : repeatedImport.answer.outcome? = some .completed := by decide +kernel
  have h : History smallListing unknownRemoval.session (some repeatedImport.answer) :=
    ((History.start.request _ _ _).reached (by decide +kernel)).missed (by decide +kernel)
  exact ⟨h, hcompleted, (chain_consistent h hcompleted).1, by decide +kernel⟩

end Session

end InstructionCoverage
