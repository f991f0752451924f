import InstructionCoverage.Proofs.Session.Regrouping

namespace InstructionCoverage

namespace Session

open RangeFile

inductive Decided (disk : FileSystem) (d : LineDecoder) (path : Path) : ImportReport → Prop
  | imported {f : RangeFile} (h : fileAt disk d path = .ok f) (hpath : f.path = path) :
      Decided disk d path ⟨[f.status true], [], .completed⟩
  | failed {e : ImportError} (h : fileAt disk d path = .error (.failed e)) (hpath : e.file = path) :
      Decided disk d path ⟨[], [e], .completed⟩

def LastImported (disk : FileSystem) (d : LineDecoder) (paths : List Path) (p : Path) (f : RangeFile) : Prop :=
  ∃ earlier path later, paths = earlier ++ path :: later ∧ path.key = p.key ∧ fileAt disk d path = .ok f ∧
    ∀ q ∈ later, q.key = p.key → ∀ g, fileAt disk d q ≠ .ok g

section Batches

variable {disk : FileSystem} {d : LineDecoder} {paths : List Path} {p : Path} {f : RangeFile}

theorem decided_reportOf (disk : FileSystem) (d : LineDecoder) (path : Path) :
    Decided disk d path (reportOf disk d [path]) := by
  rcases fileAt_cases disk d path with ⟨f, hf⟩ | ⟨fault, -, hf⟩
  · obtain ⟨-, -, -, hpath, -⟩ := fileAt_ok hf
    have hreport : reportOf disk d [path] = ⟨[f.status true], [], .completed⟩ := by
      simp [reportOf, goodFiles, badFiles, hf, Except.toOption]
    rw [hreport]
    exact .imported hf hpath
  · have hreport : reportOf disk d [path] = ⟨[], [⟨path, fault⟩], .completed⟩ := by
      simp [reportOf, goodFiles, badFiles, hf, Except.toOption]
    rw [hreport]
    exact .failed hf rfl

theorem parses_keyed_iff (path : Path) :
    ((fileAt disk d path).toOption.any fun f => f.path.key = p.key) = true ↔
      path.key = p.key ∧ ∃ f, fileAt disk d path = .ok f := by
  rcases fileAt_cases disk d path with ⟨f, hf⟩ | ⟨fault, -, hf⟩
  · obtain ⟨-, -, -, hpath, -⟩ := fileAt_ok hf
    simp [hf, Except.toOption, hpath]
  · simp [hf, Except.toOption]

theorem lastImported (h : FileTable.latest? (goodFiles disk d paths) p = some f) :
    LastImported disk d paths p f := by
  rw [FileTable.latest?, goodFiles, ← List.filterMap_reverse, List.find?_filterMap] at h
  obtain ⟨path, hfound, hf⟩ := Option.bind_eq_some_iff.1 h
  obtain ⟨hpath, later, earlier, hsplit, hlater⟩ := List.find?_eq_some_iff_append.1 hfound
  refine ⟨earlier.reverse, path, later.reverse, by simpa using congrArg List.reverse hsplit,
    ((parses_keyed_iff path).1 hpath).1, ok_of_toOption hf, ?_⟩
  intro q hq hkey g hg
  have hnot := hlater q (List.mem_reverse.1 hq)
  rw [(parses_keyed_iff q).2 ⟨hkey, g, hg⟩] at hnot
  cases hnot

theorem not_imported (h : FileTable.latest? (goodFiles disk d paths) p = none) :
    ∀ path ∈ paths, path.key = p.key → ∀ f, fileAt disk d path ≠ .ok f := by
  intro path hpath hkey f hf
  obtain ⟨-, -, -, rfl, -⟩ := fileAt_ok hf
  have hnot := List.find?_eq_none.1 h f (List.mem_reverse.2 (mem_goodFiles.2 ⟨_, hpath, hf⟩))
  simp [hkey] at hnot

end Batches

theorem before_or_last (disk : FileSystem) (d : LineDecoder) (paths : List Path) (before : FileTable) (p : Path) :
    let after := (goodFiles disk d paths).foldl FileTable.load before
    (∃ f, LastImported disk d paths p f ∧ after.content? p = some (f, true)) ∨
      (∀ path ∈ paths, path.key = p.key → ∀ f, fileAt disk d path ≠ .ok f) ∧ after.find? p = before.find? p := by
  intro after
  cases hl : FileTable.latest? (goodFiles disk d paths) p with
  | some f =>
    refine .inl ⟨f, lastImported hl, ?_⟩
    rw [FileTable.content?_loadAll, hl]
    rfl
  | none =>
    have hnone := not_imported hl
    refine .inr ⟨hnone, FileTable.find?_loadAll_other ?_ before⟩
    intro f hf hkey
    obtain ⟨path, hpath, hok⟩ := mem_goodFiles.1 hf
    obtain ⟨-, -, -, rfl, -⟩ := fileAt_ok hok
    exact hnone _ hpath hkey _ hok

/-- Each path of a batch, also one that is repeated, is reported as it would be alone, in the order of the batch.
Only the keys of the paths that parse have new entries, which are enabled; every other entry is left as it was. -/
theorem import_isolated {l : Listing} {s : Session} (h : Reachable l s) (hopen : s.aggregate.poisoned = false)
    (hu : s.Undisturbed) (disk : FileSystem) (i : Import) :
    let r := s.run disk i.op i.handle
    let before := s.aggregate.value.files
    let after := r.session.aggregate.value.files
    (∃ alone : Path → ImportReport,
      (∀ path, Decided disk s.decoder path (alone path)) ∧
      (∀ (j : Import) (path : Path), j.paths = [path] →
        (s.run disk j.op j.handle).answer = .report (alone path)) ∧
      r.answer = .report ⟨i.paths.flatMap fun path => (alone path).imported,
        i.paths.flatMap fun path => (alone path).failed, .completed⟩) ∧
    (∀ p,
      (∃ f, LastImported disk s.decoder i.paths p f ∧ after.content? p = some (f, true)) ∨
      (∀ path ∈ i.paths, path.key = p.key → ∀ f, fileAt disk s.decoder path ≠ .ok f) ∧
        after.find? p = before.find? p) ∧
    (∀ p, before.contains p = true → after.contains p = true) := by
  intro r before after
  have hidle := h.sound.idle
  obtain ⟨hanswer, hsession⟩ := import_unstopped hidle hopen hu disk i
  have hafter : after = (goodFiles disk s.decoder i.paths).foldl FileTable.load before := by
    rw [← taking_files, ← hsession]
  have hentries (p : Path) := before_or_last disk s.decoder i.paths before p
  refine ⟨⟨fun path => reportOf disk s.decoder [path], decided_reportOf disk s.decoder, ?_, ?_⟩, ?_, ?_⟩
  · intro j path hj
    rw [(import_unstopped hidle hopen hu disk j).1, hj]
  · obtain ⟨himported, hfailed⟩ := reportOf_flatMap disk s.decoder (fun path => [path]) i.paths
    rw [himported, hfailed, List.flatMap_singleton']
    exact hanswer
  · rw [hafter]
    exact hentries
  · intro p hp
    rw [hafter]
    rcases hentries p with ⟨f, -, hc⟩ | ⟨-, hsame⟩
    · exact (FileTable.contains_iff _ p).2 ⟨f, true, hc⟩
    · rw [FileTable.contains, hsame]
      exact hp

def disabledSession : Session :=
  (runAll mixedDisk [(.importFiles [⟨"a.cov"⟩, ⟨"b.cov"⟩], .unbounded), (.setEnabled ⟨"a.cov"⟩ false, .unbounded),
    (.setEnabled ⟨"b.cov"⟩ false, .unbounded)] (ofListing smallListing)).2

def repeatedBatch : List Path :=
  [⟨"b.cov"⟩, ⟨"a.cov/"⟩, ⟨"c.cov"⟩, ⟨"b.cov"⟩]

theorem import_isolated_disabled :
    Reachable smallListing disabledSession ∧ disabledSession.aggregate.poisoned = false ∧
      disabledSession.Undisturbed ∧
      let before := disabledSession.aggregate.value.files
      let r := disabledSession.run mixedDisk (.importFiles repeatedBatch) .unbounded
      let after := r.session.aggregate.value.files
      (∃ imported failed, r.answer = .report ⟨imported, failed, .completed⟩) ∧
        (before.find? ⟨"a.cov/"⟩).map Entry.enabled = some false ∧
        after.find? ⟨"a.cov/"⟩ = before.find? ⟨"a.cov/"⟩ ∧
        (before.find? ⟨"b.cov"⟩).map Entry.enabled = some false ∧
        ∃ f, after.content? ⟨"b.cov"⟩ = some (f, true) := by
  have hreachable : Reachable smallListing disabledSession :=
    ⟨_, ((History.start.request _ _ _).request _ _ _).request _ _ _⟩
  have hopen : disabledSession.aggregate.poisoned = false := by decide +kernel
  have hu := undisturbed_of_nobody (s := disabledSession) (List.isEmpty_iff.1 (by decide +kernel))
  obtain ⟨⟨alone, -, -, hanswer⟩, hentries, -⟩ :=
    import_isolated hreachable hopen hu mixedDisk (importOf repeatedBatch)
  refine ⟨hreachable, hopen, hu, ⟨_, _, hanswer⟩, by decide +kernel, ?_, by decide +kernel, ?_⟩
  · have hbad : ∀ path ∈ repeatedBatch, path.key = Path.key ⟨"a.cov/"⟩ →
        (fileAt mixedDisk disabledSession.decoder path).toOption = none := by
      decide +kernel
    rcases hentries ⟨"a.cov/"⟩ with ⟨f, ⟨earlier, path, later, hsplit, hkey, hf, -⟩, -⟩ | ⟨-, hsame⟩
    · have hpath : path ∈ repeatedBatch := by
        change repeatedBatch = earlier ++ path :: later at hsplit
        simp [hsplit]
      have hnone := hbad path hpath hkey
      rw [hf] at hnone
      cases hnone
    · exact hsame
  · rcases hentries ⟨"b.cov"⟩ with ⟨f, -, hc⟩ | ⟨hnone, -⟩
    · exact ⟨f, hc⟩
    · have hgood : (fileAt mixedDisk disabledSession.decoder ⟨"b.cov"⟩).toOption.isSome = true := by decide +kernel
      obtain ⟨f, hf⟩ := Option.isSome_iff_exists.1 hgood
      exact absurd (ok_of_toOption hf) (hnone ⟨"b.cov"⟩ (by decide) rfl f)

end Session

end InstructionCoverage
