import InstructionCoverage.Proofs.Session.Cancellation

/-!
What a cancelled import publishes. The union is replaced once the merge was granted all its polls; the alignment or a
subscriber can still cancel the import after that.
-/

namespace InstructionCoverage.Session

open Progress

theorem recompute_aggregate {p q : Progress} (h : p.Agrees q) {s : Session} (hs : s.aggregate.poisoned = false)
    {a : Aggregate} (hp : (s.recompute a p).1 ≠ .panicked) :
    ((q.grant a.files.size).1 = .completed ∧
      (s.recompute a p).2.1.aggregate = ⟨a.publish a.files.union, false⟩) ∨
    ((q.grant a.files.size).1 ≠ .completed ∧ (s.recompute a p).1 = .cancelled ∧
      (s.recompute a p).2.1.aggregate = ⟨a, false⟩) := by
  obtain ⟨p', -, hr⟩ := recompute_stage h s a
  rw [hr] at hp ⊢
  split
  · rename_i hg
    rw [if_pos hg, propagate_stage] at hp
    refine .inl ⟨hg, ?_⟩
    rw [propagate_stage]
    simp [hs, hp]
  · rename_i hg
    rw [if_neg hg] at hp
    refine .inr ⟨hg, ?_, by simp [hs, hp]⟩
    cases hending : (q.grant a.files.size).1 with
    | completed => exact absurd hending hg
    | panicked => exact absurd hending hp
    | cancelled => rfl

theorem settle_ne_panicked {answer : Outcome → Answer} {r : Ending × Session × Progress}
    (h : settle answer r ≠ .panicked) : r.1 ≠ .panicked := by
  obtain ⟨ending, s, p⟩ := r
  rintro rfl
  exact h rfl

structure UnionKept (s t : Session) : Prop where
  raw : t.rawRanges = s.rawRanges
  published : t.aggregate.value.published = s.aggregate.value.published

section Reported

variable {s : Session} {disk : FileSystem} {paths : List Path} {p : Progress} {report : ImportReport}

theorem reported_unloaded (hs : s.Idle) (h : goodFiles disk s.decoder paths = [] ∨
      (p.grant (batchPolls disk s.decoder paths + 1)).1 ≠ .completed)
    (hanswer : (s.run disk (.importFiles paths) p).answer = .report report) :
    UnionKept s (s.run disk (.importFiles paths) p).session ∧
      (goodFiles disk s.decoder paths ≠ [] → report.outcome = .cancelled) := by
  obtain ⟨answer, q, hplan, hcancelled⟩ := importPlan_unloaded (s := s) h
  obtain ⟨hgiven, hsession⟩ := import_answered hs hplan
  rw [hsession]
  refine ⟨⟨rfl, rfl⟩, fun hgood => hcancelled hgood _ ?_⟩
  rw [← hgiven, hanswer]
  rfl

theorem reported_loaded (hs : s.Idle) (hgood : goodFiles disk s.decoder paths ≠ [])
    (hparsed : (p.grant (batchPolls disk s.decoder paths + 1)).1 = .completed)
    (hanswer : (s.run disk (.importFiles paths) p).answer = .report report) :
    let a := s.aggregate.value.loadAll (goodFiles disk s.decoder paths)
    let merged := p.grant (batchPolls disk s.decoder paths + 1 + a.files.size)
    s.aggregate.poisoned = false ∧
      (merged.1 = .completed ∧
        (s.run disk (.importFiles paths) p).session.aggregate = ⟨a.publish a.files.union, false⟩ ∨
      merged.1 ≠ .completed ∧ report.outcome = .cancelled ∧
        (s.run disk (.importFiles paths) p).session.aggregate = ⟨a, false⟩) := by
  intro a merged
  obtain ⟨q, hq, hplan⟩ := importPlan_read (s := s) hparsed hgood
  rw [Guarded.read] at hplan
  cases hpoisoned : s.aggregate.poisoned with
  | true =>
    -- A poisoned aggregate refuses the import, which then has no report.
    rw [if_pos hpoisoned] at hplan
    rw [(import_answered hs hplan).1] at hanswer
    cases hanswer
  | false =>
    rw [if_neg (by rw [hpoisoned]; decide)] at hplan
    obtain ⟨hsettled, hsession⟩ := import_merged hs hplan
    rw [hanswer] at hsettled
    have hne : (s.recompute a q).1 ≠ .panicked := by
      apply settle_ne_panicked
      rw [← hsettled]
      simp
    have hmerged : merged = (p.grant (batchPolls disk s.decoder paths + 1)).2.grant a.files.size :=
      grant_completed_add hparsed _
    refine ⟨rfl, ?_⟩
    rw [hsession, hmerged]
    rcases recompute_aggregate hq hpoisoned hne with ⟨hg, haggregate⟩ | ⟨hg, hending, haggregate⟩
    · exact .inl ⟨hg, haggregate⟩
    · rw [settle_cancelled hending] at hsettled
      cases hsettled
      exact .inr ⟨hg, rfl, haggregate⟩

end Reported

theorem import_union {l : Listing} {s : Session} (h : Reachable l s) (disk : FileSystem) (paths : List Path)
    (p : Progress) {report : ImportReport}
    (hanswer : (s.run disk (.importFiles paths) p).answer = .report report) :
    let t := (s.run disk (.importFiles paths) p).session
    let good := goodFiles disk s.decoder paths
    let a := s.aggregate.value.loadAll good
    let merged := batchPolls disk s.decoder paths + 1 + a.files.size
    (good = [] ∨ (p.grant merged).1 ≠ .completed → UnionKept s t) ∧
    (good ≠ [] → (p.grant merged).1 ≠ .completed → report.outcome = .cancelled) ∧
    (good ≠ [] → (p.grant merged).1 = .completed →
      t.rawRanges = .ok a.files.union ∧ t.aggregate.value.published = some a.files.union) := by
  intro t good a merged
  have hidle := h.sound.idle
  by_cases hgood : good = []
  · obtain ⟨hkept, -⟩ := reported_unloaded hidle (.inl hgood) hanswer
    exact ⟨fun _ => hkept, fun hne => absurd hgood hne, fun hne => absurd hgood hne⟩
  by_cases hparsed : (p.grant (batchPolls disk s.decoder paths + 1)).1 = .completed
  · obtain ⟨hpoisoned, ⟨hmerged, haggregate⟩ | ⟨hcut, hcancelled, haggregate⟩⟩ :=
      reported_loaded hidle hgood hparsed hanswer
    · have hentries : a.files.entries ≠ [] := by
        rw [Aggregate.loadAll_files]
        exact FileTable.loadAll_ne_nil hgood _
      rw [Aggregate.publish_eq_current hentries] at haggregate
      refine ⟨fun hcut => absurd hmerged (hcut.resolve_left hgood), fun _ hcut => absurd hmerged hcut, fun _ _ => ?_⟩
      refine ⟨?_, ?_⟩
      · rw [rawRanges, haggregate]
        rfl
      · rw [haggregate]
        rfl
    · rw [Aggregate.loadAll_eq _ hgood] at haggregate
      refine ⟨fun _ => ⟨?_, ?_⟩, fun _ _ => hcancelled, fun _ hmerged => absurd hmerged hcut⟩
      · rw [rawRanges, rawRanges, haggregate, Guarded.read, Guarded.read, hpoisoned]
        rfl
      · rw [haggregate]
  · obtain ⟨hkept, hcancelled⟩ := reported_unloaded hidle (.inr hparsed) hanswer
    have hunmerged : (p.grant merged).1 ≠ .completed := fun hmerged => hparsed (grant_completed_of_add hmerged)
    exact ⟨fun _ => hkept, fun _ _ => hcancelled hgood, fun _ hmerged => absurd hmerged hunmerged⟩

def smallImport (s : Session) (p : Progress) : Run :=
  s.run smallDisk (.importFiles [⟨"a.cov"⟩]) p

def cancelledReport : ImportReport :=
  ⟨(goodFiles smallDisk .hexRange [⟨"a.cov"⟩]).map fun f => f.status true, [], .cancelled⟩

theorem import_union_unmerged :
    Reachable smallListing (ofListing smallListing) ∧
      (smallImport (ofListing smallListing) (.cancelAfter 2)).answer = .report cancelledReport ∧
      (smallImport (ofListing smallListing) (.cancelAfter 2)).session.aggregate.value.files.statuses.length = 1 ∧
      UnionKept (ofListing smallListing) (smallImport (ofListing smallListing) (.cancelAfter 2)).session := by
  have h : Reachable smallListing (ofListing smallListing) := ⟨none, .start⟩
  have hanswer : (smallImport (ofListing smallListing) (.cancelAfter 2)).answer = .report cancelledReport := by
    decide +kernel
  obtain ⟨hkept, -, -⟩ := import_union h smallDisk [⟨"a.cov"⟩] (.cancelAfter 2) hanswer
  exact ⟨h, hanswer, by decide +kernel, hkept (.inr (by decide +kernel))⟩

def decliningSession : Session :=
  (ofListing smallListing).subscribe ⟨"declining", [], .cancel⟩

/-- With three polls the cancellation comes from the alignment. With as many as it takes it can still come from a
subscriber. -/
theorem cancelled_import_replaces_union :
    (¬ ∀ (s : Session) (disk : FileSystem) (paths : List Path) (p : Progress) (report : ImportReport),
      Reachable smallListing s → s.subscribers = [] → (s.run disk (.importFiles paths) p).answer = .report report →
      report.outcome = .cancelled → UnionKept s (s.run disk (.importFiles paths) p).session) ∧
    (¬ ∀ (s : Session) (disk : FileSystem) (paths : List Path) (report : ImportReport),
      Reachable smallListing s → (s.run disk (.importFiles paths) .unbounded).answer = .report report →
      report.outcome = .cancelled → UnionKept s (s.run disk (.importFiles paths) .unbounded).session) := by
  constructor
  · intro hclaim
    have hkept := hclaim (ofListing smallListing) smallDisk [⟨"a.cov"⟩] (.cancelAfter 3) cancelledReport ⟨none, .start⟩
      rfl (by decide +kernel) rfl
    exact absurd hkept.published (by decide +kernel)
  · intro hclaim
    have hkept := hclaim decliningSession smallDisk [⟨"a.cov"⟩] cancelledReport ⟨none, .subscribe _ .start⟩
      (by decide +kernel) rfl
    exact absurd hkept.published (by decide +kernel)

end InstructionCoverage.Session
