import InstructionCoverage.Proofs.Session.Import

namespace InstructionCoverage

theorem Aggregate.current_congr {a b : Aggregate} (h : a.files = b.files) : a.current = b.current := by
  rw [current, current, h]

namespace Session

open RangeFile

section Batches

variable {disk : FileSystem} {d : LineDecoder} {paths : List Path}

theorem goodFiles_append (before later : List Path) :
    goodFiles disk d (before ++ later) = goodFiles disk d before ++ goodFiles disk d later :=
  List.filterMap_append

theorem goodFiles_keys (h : paths.Pairwise fun p q => p.key ≠ q.key) :
    (goodFiles disk d paths).Pairwise fun f g => f.path.key ≠ g.path.key := by
  rw [goodFiles, List.pairwise_filterMap]
  refine h.imp ?_
  intro p q hne f hf g hg
  obtain ⟨-, -, -, rfl, -⟩ := fileAt_ok (ok_of_toOption hf)
  obtain ⟨-, -, -, rfl, -⟩ := fileAt_ok (ok_of_toOption hg)
  exact hne

end Batches

theorem taking_taking (s : Session) (fs gs : List RangeFile) : (s.taking fs).taking gs = s.taking (fs ++ gs) := by
  by_cases hf : fs = []
  · rw [hf, taking_nil, List.nil_append]
  by_cases hg : gs = []
  · rw [hg, taking_nil, List.append_nil]
  have hmodels :
      ((s.taking fs).aggregate.value.loadAll gs).current = (s.aggregate.value.loadAll (fs ++ gs)).current := by
    apply Aggregate.current_congr
    rw [Aggregate.loadAll_files, Aggregate.loadAll_files, taking_files, List.foldl_append]
  rw [taking, if_neg hg, hmodels, taking, if_neg hf, taking, if_neg (by simp [hf])]
  rfl

theorem taking_perm {fs gs : List RangeFile} (h : fs.Perm gs)
    (hkeys : fs.Pairwise fun f g => f.path.key ≠ g.path.key) (s : Session) : s.taking fs = s.taking gs := by
  have hmodels : (s.aggregate.value.loadAll fs).current = (s.aggregate.value.loadAll gs).current := by
    apply Aggregate.current_congr
    rw [Aggregate.loadAll_files, Aggregate.loadAll_files, FileTable.loadAll_perm h hkeys]
  have hnil : fs = [] ↔ gs = [] := by rw [← List.length_eq_zero_iff, h.length_eq, List.length_eq_zero_iff]
  rw [taking, taking, hmodels]
  simp only [hnil]

theorem taking_poisoned (s : Session) (good : List RangeFile) :
    (s.taking good).aggregate.poisoned = s.aggregate.poisoned := by
  rw [taking]
  split <;> rfl

def Import.request (i : Import) : Operation × Progress :=
  (i.op, i.handle)

theorem runAll_imports {l : Listing} {s : Session} (hs : Sound l s) (hp : s.aggregate.poisoned = false)
    (hu : s.Undisturbed) (disk : FileSystem) (is : List Import) :
    runAll disk (is.map Import.request) s =
      (is.map fun i => .report (reportOf disk s.decoder i.paths),
        s.taking (goodFiles disk s.decoder (is.flatMap Import.paths))) := by
  induction is generalizing s with
  | nil => rw [List.flatMap_nil, goodFiles, List.filterMap_nil, taking_nil]; rfl
  | cons i is ih =>
    obtain ⟨hanswer, hsession⟩ := import_unstopped hs.idle hp hu disk i
    have hsetup := setup_run hs.idle disk i.op i.handle
    have hsound := hs.run disk i.op i.handle
    rw [hsession] at hsetup hsound
    have hrest := ih hsound ((taking_poisoned s _).trans hp) (by rw [Undisturbed, hsetup.subscribers]; exact hu)
    rw [hsetup.decoder, taking_taking, ← goodFiles_append] at hrest
    rw [List.map_cons, Import.request, runAll, hsession, hanswer, hrest, List.map_cons, List.flatMap_cons]

theorem reportOf_flatMap {α : Type} (disk : FileSystem) (d : LineDecoder) (batch : α → List Path) (xs : List α) :
    (xs.flatMap fun x => (reportOf disk d (batch x)).imported) = (reportOf disk d (xs.flatMap batch)).imported ∧
      (xs.flatMap fun x => (reportOf disk d (batch x)).failed) = (reportOf disk d (xs.flatMap batch)).failed := by
  constructor
  · rw [reportOf, goodFiles, List.filterMap_flatMap, List.map_flatMap]
    rfl
  · rw [reportOf, badFiles, List.filterMap_flatMap]
    rfl

theorem reportOf_perm (disk : FileSystem) (d : LineDecoder) {paths others : List Path} (h : paths.Perm others) :
    (reportOf disk d paths).imported.Perm (reportOf disk d others).imported ∧
      (reportOf disk d paths).failed.Perm (reportOf disk d others).failed :=
  ⟨(h.filterMap _).map _, h.filterMap _⟩

/-- Files of different keys can be imported at once, in another order or in several calls. Nothing that can be read
of the session tells the difference, and between them the reports name the same files with the same results. -/
theorem imports_regroup {l : Listing} {s : Session} (h : Reachable l s) (hopen : s.aggregate.poisoned = false)
    (hu : s.Undisturbed) (disk : FileSystem) (whole : Import) (parts : List Import)
    (hkeys : whole.paths.Pairwise fun p q => p.key ≠ q.key)
    (hparts : (parts.flatMap Import.paths).Perm whole.paths) :
    let r := s.run disk whole.op whole.handle
    let rs := runAll disk (parts.map Import.request) s
    rs.2 = r.session ∧
      ∃ (report : ImportReport) (reports : List ImportReport), r.answer = .report report ∧ rs.1 = reports.map .report ∧
        report.outcome = .completed ∧ (∀ part ∈ reports, part.outcome = .completed) ∧
        (reports.flatMap ImportReport.imported).Perm report.imported ∧
        (reports.flatMap ImportReport.failed).Perm report.failed ∧
        (parts.flatMap Import.paths = whole.paths →
          reports.flatMap ImportReport.imported = report.imported ∧
          reports.flatMap ImportReport.failed = report.failed) := by
  intro r rs
  have hs := h.sound
  obtain ⟨hanswer, hsession⟩ := import_unstopped hs.idle hopen hu disk whole
  have hrs : rs = _ := runAll_imports hs hopen hu disk parts
  obtain ⟨himported, hfailed⟩ := reportOf_flatMap disk s.decoder Import.paths parts
  obtain ⟨himported', hfailed'⟩ := reportOf_perm disk s.decoder hparts
  have hgood : (goodFiles disk s.decoder (parts.flatMap Import.paths)).Perm (goodFiles disk s.decoder whole.paths) :=
    hparts.filterMap _
  refine ⟨?_, reportOf disk s.decoder whole.paths, parts.map fun i => reportOf disk s.decoder i.paths, hanswer, ?_, rfl,
    ?_, ?_, ?_, ?_⟩
  · rw [hrs, hsession]
    exact (taking_perm hgood.symm (goodFiles_keys hkeys) s).symm
  · rw [hrs, List.map_map]
    rfl
  · intro part hpart
    obtain ⟨i, -, rfl⟩ := List.mem_map.1 hpart
    rfl
  · rw [List.flatMap_map, himported]
    exact himported'
  · rw [List.flatMap_map, hfailed]
    exact hfailed'
  · intro hsame
    rw [List.flatMap_map, List.flatMap_map, himported, hfailed, hsame]
    exact ⟨rfl, rfl⟩

def cutSession : Session :=
  ((ofListing smallListing).run mixedDisk (.importFiles [⟨"a.cov"⟩]) (.cancelAfter 2)).session

def unmergedSession : Session :=
  cutSession.subscribe ⟨"polling", [.refresh], .poll⟩

def importOf (paths : List Path) : Import :=
  ⟨.importFiles paths, .unbounded, paths, .unbounded, rfl, Progress.unbounded_lenient⟩

theorem unmergedSession_reachable : Reachable smallListing unmergedSession :=
  ⟨_, (History.start.request _ _ _).subscribe _⟩

theorem unmergedSession_undisturbed : unmergedSession.Undisturbed := by
  have hnobody : cutSession.subscribers = [] := List.isEmpty_iff.1 (by decide +kernel)
  apply undisturbed_of_each
  rw [unmergedSession, subscribe, hnobody, List.nil_append, List.forall_mem_singleton]
  exact fun q hq => ⟨hq q.polls, hq⟩

theorem imports_regroup_unmerged :
    Reachable smallListing unmergedSession ∧ unmergedSession.aggregate.poisoned = false ∧
      unmergedSession.Undisturbed ∧ unmergedSession.aggregate.value.union = [] ∧
      let whole := unmergedSession.run mixedDisk (.importFiles [⟨"b.cov"⟩, ⟨"c.cov"⟩, ⟨"d.cov"⟩]) .unbounded
      let parts := runAll mixedDisk [(.importFiles [⟨"d.cov"⟩, ⟨"b.cov"⟩], .unbounded),
        (.importFiles [⟨"c.cov"⟩], .unbounded)] unmergedSession
      parts.2 = whole.session ∧ whole.session.aggregate.value.union.length = 2 := by
  have hopen : unmergedSession.aggregate.poisoned = false := by decide +kernel
  obtain ⟨hsame, -⟩ := imports_regroup unmergedSession_reachable hopen unmergedSession_undisturbed mixedDisk
    (importOf [⟨"b.cov"⟩, ⟨"c.cov"⟩, ⟨"d.cov"⟩]) [importOf [⟨"d.cov"⟩, ⟨"b.cov"⟩], importOf [⟨"c.cov"⟩]]
    (by decide +kernel) (by decide +kernel)
  exact ⟨unmergedSession_reachable, hopen, unmergedSession_undisturbed, by decide +kernel, hsame, by decide +kernel⟩

end Session

end InstructionCoverage
