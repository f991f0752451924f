import InstructionCoverage.Proofs.RangeFile.Exactness
import InstructionCoverage.Proofs.Session.History
import Mathlib.Algebra.Ring.Nat

namespace InstructionCoverage

open Progress

theorem ok_of_toOption {ε α : Type} {x : Except ε α} {a : α} (h : x.toOption = some a) : x = .ok a := by
  cases x with
  | error e => cases h
  | ok b => exact congrArg Except.ok (Option.some.inj h)

namespace RangeFile

def fileAt (disk : FileSystem) (d : LineDecoder) (path : Path) : Except ParseStop RangeFile :=
  (importFile disk d path .unbounded).1

def pollsAt (disk : FileSystem) (d : LineDecoder) (path : Path) : Nat :=
  match disk path with
  | .ok bytes => linesBegun d bytes
  | .error _ => 0

theorem FirstFault.ne_cancelled {d : LineDecoder} {bytes : List UInt8} {fault : ImportFault}
    (h : FirstFault d bytes fault) : fault ≠ .cancelled := by
  cases h <;> simp

section File

variable {disk : FileSystem} {d : LineDecoder} {path : Path} {f : RangeFile} {bytes : List UInt8}

theorem fileAt_read (h : disk path = .ok bytes) :
    fileAt disk d path =
      match scanned d bytes with
      | .ok (found, n) => .ok ⟨path, digestOf bytes, found, n⟩
      | .error fault => .error (.failed ⟨path, fault⟩) := by
  rw [fileAt, importFile, h]
  exact parse_lenient unbounded_lenient d path bytes

theorem fileAt_of_wellFormed (h : disk path = .ok bytes) (hw : WellFormed d bytes) :
    ∃ f, fileAt disk d path = .ok f := by
  obtain ⟨⟨found, n⟩, hs⟩ := scanned_of_wellFormed hw
  rw [fileAt_read h, hs]
  exact ⟨_, rfl⟩

theorem fileAt_ok (h : fileAt disk d path = .ok f) :
    ∃ bytes, disk path = .ok bytes ∧ WellFormed d bytes ∧ f.path = path ∧ ∀ r, r ∈ f.ranges ↔ Covers d bytes r := by
  cases hb : disk path with
  | error e =>
    rw [fileAt, importFile, hb] at h
    cases h
  | ok bytes =>
    rw [fileAt_read hb] at h
    cases hs : scanned d bytes with
    | error fault =>
      rw [hs] at h
      cases h
    | ok found =>
      rw [hs] at h
      cases h
      obtain ⟨hw, -, hr⟩ := scanned_ok_iff.1 hs
      exact ⟨bytes, rfl, hw, rfl, hr⟩

end File

theorem fileAt_cases (disk : FileSystem) (d : LineDecoder) (path : Path) :
    (∃ f, fileAt disk d path = .ok f) ∨
      ∃ fault, fault ≠ .cancelled ∧ fileAt disk d path = .error (.failed ⟨path, fault⟩) := by
  cases hb : disk path with
  | error e => exact .inr ⟨.unreadable e, by simp, by rw [fileAt, importFile, hb]⟩
  | ok bytes =>
    rw [fileAt_read hb]
    cases hs : scanned d bytes with
    | ok found => exact .inl ⟨_, rfl⟩
    | error fault => exact .inr ⟨fault, (scanned_error_iff.1 hs).ne_cancelled, rfl⟩

theorem importFile_stage (disk : FileSystem) (d : LineDecoder) (path : Path) (p : Progress) :
    importFile disk d path p =
      match p.grant (pollsAt disk d path) with
      | (.completed, q) => (fileAt disk d path, q)
      | (.cancelled, q) => (.error (.failed ⟨path, .cancelled⟩), q)
      | (.panicked, q) => (.error .panicked, q) := by
  rw [fileAt, importFile, importFile, pollsAt]
  cases disk path with
  | error e => rfl
  | ok bytes =>
    dsimp only
    rw [parse_stage, parse_stage, afterPolls_completed (unbounded_lenient.grant _)]
    cases p.grant (linesBegun d bytes) with
    | mk ending q => cases ending <;> rfl

end RangeFile

namespace Session

open RangeFile

def goodFiles (disk : FileSystem) (d : LineDecoder) (paths : List Path) : List RangeFile :=
  paths.filterMap fun path => (fileAt disk d path).toOption

def badFiles (disk : FileSystem) (d : LineDecoder) (paths : List Path) : List ImportError :=
  paths.filterMap fun path =>
    match fileAt disk d path with
    | .error (.failed e) => some e
    | _ => none

def batchPolls (disk : FileSystem) (d : LineDecoder) (paths : List Path) : Nat :=
  (paths.map (pollsAt disk d)).sum

def readingPolls (disk : FileSystem) (d : LineDecoder) (paths : List Path) : Nat :=
  batchPolls disk d paths + if goodFiles disk d paths = [] then 0 else 1

section Good

variable {disk : FileSystem} {d : LineDecoder} {paths : List Path}

theorem readingPolls_nothing (h : goodFiles disk d paths = []) :
    readingPolls disk d paths = batchPolls disk d paths := by
  rw [readingPolls, if_pos h, Nat.add_zero]

theorem readingPolls_loading (h : goodFiles disk d paths ≠ []) :
    readingPolls disk d paths = batchPolls disk d paths + 1 := by
  rw [readingPolls, if_neg h]

theorem mem_goodFiles {f : RangeFile} :
    f ∈ goodFiles disk d paths ↔ ∃ path ∈ paths, fileAt disk d path = .ok f := by
  rw [goodFiles, List.mem_filterMap]
  have hok (path : Path) : (fileAt disk d path).toOption = some f ↔ fileAt disk d path = .ok f :=
    ⟨ok_of_toOption, fun h => congrArg Except.toOption h⟩
  simp only [hok]

theorem goodFiles_ne_nil :
    goodFiles disk d paths ≠ [] ↔
    ∃ path ∈ paths, ∃ bytes, disk path = .ok bytes ∧ WellFormed d bytes := by
  constructor
  · intro hne
    obtain ⟨f, hf⟩ := List.exists_mem_of_ne_nil _ hne
    obtain ⟨path, hpath, hok⟩ := mem_goodFiles.1 hf
    obtain ⟨bytes, hb, hw, -⟩ := fileAt_ok hok
    exact ⟨path, hpath, bytes, hb, hw⟩
  · rintro ⟨path, hpath, bytes, hb, hw⟩
    obtain ⟨f, hf⟩ := fileAt_of_wellFormed hb hw
    exact List.ne_nil_of_mem (mem_goodFiles.2 ⟨path, hpath, hf⟩)

end Good

theorem parseBatch_stage (disk : FileSystem) (d : LineDecoder) {p q : Progress} (h : p.Agrees q) (paths : List Path)
    (parsed : List RangeFile) (failed : List ImportError) :
    (parseBatch disk d paths parsed failed p).1 = (q.grant (batchPolls disk d paths)).1 ∧
      ((q.grant (batchPolls disk d paths)).1 = .completed →
        ∃ p', p'.Agrees (q.grant (batchPolls disk d paths)).2 ∧
          parseBatch disk d paths parsed failed p =
            (.completed, parsed ++ goodFiles disk d paths, failed ++ badFiles disk d paths, p')) := by
  induction paths generalizing p q parsed failed with
  | nil => exact ⟨rfl, fun _ => ⟨p, h, by simp [parseBatch, goodFiles, badFiles]⟩⟩
  | cons path paths ih =>
    have hpolls : batchPolls disk d (path :: paths) = pollsAt disk d path + batchPolls disk d paths := rfl
    have hgrant := ((announce_agrees p s!"importing {path.text}").trans h).grant (pollsAt disk d path)
    rw [parseBatch, importFile_stage, hpolls, grant_add]
    cases hq : q.grant (pollsAt disk d path) with
    | mk ending q' =>
      cases hp : (p.announce s!"importing {path.text}").grant (pollsAt disk d path) with
      | mk ending' p' =>
        rw [hp, hq] at hgrant
        obtain ⟨rfl, hagrees⟩ := hgrant
        dsimp only at hagrees ⊢
        cases ending' with
        | cancelled => exact ⟨rfl, fun hc => by cases hc⟩
        | panicked => exact ⟨rfl, fun hc => by cases hc⟩
        | completed =>
          rcases fileAt_cases disk d path with ⟨f, hf⟩ | ⟨fault, hne, hf⟩
          · obtain ⟨hending, hrest⟩ := ih hagrees (parsed ++ [f]) failed
            simp only [hf, hending, true_and]
            intro hc
            obtain ⟨p'', hp'', hr⟩ := hrest hc
            refine ⟨p'', hp'', ?_⟩
            rw [hr]
            simp [goodFiles, badFiles, hf, Except.toOption]
          · obtain ⟨hending, hrest⟩ := ih hagrees parsed (failed ++ [⟨path, fault⟩])
            simp only [hf, hne, if_false, hending, true_and]
            intro hc
            obtain ⟨p'', hp'', hr⟩ := hrest hc
            refine ⟨p'', hp'', ?_⟩
            rw [hr]
            simp [goodFiles, badFiles, hf, Except.toOption]

def stopped (failed : List ImportError) : Ending → Answer
  | .panicked => .panicked
  | _ => .report ⟨[], failed, .cancelled⟩

theorem stopped_outcome {failed : List ImportError} {ending : Ending} {o : Outcome}
    (h : (stopped failed ending).outcome? = some o) : o = .cancelled := by
  cases ending <;> cases h <;> rfl

section

variable {disk : FileSystem} {paths : List Path} {s : Session} {p : Progress}

theorem importPlan_stopped (h : (p.grant (readingPolls disk s.decoder paths)).1 ≠ .completed) :
    ∃ failed q, importPlan disk paths s p =
      (.answer (stopped failed (p.grant (readingPolls disk s.decoder paths)).1), q) := by
  obtain ⟨hending, hparsed⟩ := parseBatch_stage disk s.decoder (Agrees.refl p) paths [] []
  rw [readingPolls, grant_add] at h ⊢
  cases hb : p.grant (batchPolls disk s.decoder paths) with
  | mk ending q =>
    rw [hb] at h hending hparsed
    rw [importPlan]
    cases hr : parseBatch disk s.decoder paths [] [] p with
    | mk ending' r =>
      rw [hr] at hending hparsed
      cases hending
      cases ending with
      | cancelled => exact ⟨_, _, rfl⟩
      | panicked => exact ⟨[], _, rfl⟩
      | completed =>
        obtain ⟨p', hp', hr'⟩ := hparsed rfl
        cases hr'
        by_cases hgood : goodFiles disk s.decoder paths = []
        · rw [if_pos hgood] at h
          exact absurd rfl h
        · rw [if_neg hgood] at h
          simp only [List.nil_append, List.isEmpty_iff, hgood, if_false]
          have hq : q.poll.1 ≠ .completed := fun hq => h (by simp [grant_succ_completed hq])
          rw [grant_succ_stopped hq, ← hp'.poll.1]
          rw [← hp'.poll.1] at hq
          cases hpoll : p'.poll with
          | mk ending q' =>
            rw [hpoll] at hq
            cases ending with
            | completed => exact absurd rfl hq
            | cancelled => exact ⟨_, _, rfl⟩
            | panicked => exact ⟨[], _, rfl⟩

theorem importPlan_batch_cut (h : (p.grant (batchPolls disk s.decoder paths)).1 = .cancelled) :
    ∃ failed q, importPlan disk paths s p = (.answer (.report ⟨[], failed, .cancelled⟩), q) := by
  have hcut : (p.grant (readingPolls disk s.decoder paths)).1 = .cancelled := by
    rw [readingPolls, grant_add]
    cases hb : p.grant (batchPolls disk s.decoder paths) with
    | mk ending q =>
      rw [hb] at h
      cases h
      rfl
  obtain ⟨failed, q, hplan⟩ := importPlan_stopped (s := s) (by rw [hcut]; decide)
  rw [hcut] at hplan
  exact ⟨failed, q, hplan⟩

theorem importPlan_cut (hgood : goodFiles disk s.decoder paths ≠ [])
    (h : (p.grant (batchPolls disk s.decoder paths + 1)).1 = .cancelled) :
    ∃ failed q, importPlan disk paths s p = (.answer (.report ⟨[], failed, .cancelled⟩), q) := by
  rw [← readingPolls_loading hgood] at h
  obtain ⟨failed, q, hplan⟩ := importPlan_stopped (s := s) (by rw [h]; decide)
  rw [h] at hplan
  exact ⟨failed, q, hplan⟩

theorem importPlan_nothing (h : (p.grant (batchPolls disk s.decoder paths)).1 = .completed)
    (hg : goodFiles disk s.decoder paths = []) :
    ∃ q, importPlan disk paths s p = (.answer (.report ⟨[], badFiles disk s.decoder paths, .completed⟩), q) := by
  obtain ⟨p', -, hr⟩ := (parseBatch_stage disk s.decoder (Agrees.refl p) paths [] []).2 h
  refine ⟨p', ?_⟩
  rw [importPlan, hr]
  simp [hg]

theorem importPlan_read (h : (p.grant (batchPolls disk s.decoder paths + 1)).1 = .completed)
    (hg : goodFiles disk s.decoder paths ≠ []) :
    ∃ q, q.Agrees (p.grant (batchPolls disk s.decoder paths + 1)).2 ∧
      importPlan disk paths s p =
        match s.aggregate.read with
        | .error e => (.answer (.refused e), q)
        | .ok a => (.merge (a.loadAll (goodFiles disk s.decoder paths)) fun o =>
            .report ⟨(goodFiles disk s.decoder paths).map fun f => f.status true, badFiles disk s.decoder paths, o⟩,
            q) := by
  rw [grant_add] at h ⊢
  cases hb : p.grant (batchPolls disk s.decoder paths) with
  | mk ending q =>
    rw [hb] at h
    cases ending with
    | cancelled => cases h
    | panicked => cases h
    | completed =>
      obtain ⟨p', hp', hr⟩ := (parseBatch_stage disk s.decoder (Agrees.refl p) paths [] []).2 (by rw [hb])
      rw [hb] at hp'
      have hq : q.poll.1 = .completed := by
        by_cases hq : q.poll.1 = .completed
        · exact hq
        · simpa [grant_succ_stopped hq] using h
      have hpoll : p'.poll = (.completed, p'.poll.2) := Prod.ext (hp'.poll.1.trans hq) rfl
      refine ⟨p'.poll.2, ?_, ?_⟩
      · dsimp only
        rw [grant_succ_completed hq]
        exact hp'.poll.2
      · rw [importPlan, hr]
        simp only [List.nil_append, List.isEmpty_iff, hg, if_false]
        rewrite [hpoll]
        cases s.aggregate.read <;> rfl

theorem importPlan_loaded (h : (p.grant (batchPolls disk s.decoder paths + 1)).1 = .completed)
    (hg : goodFiles disk s.decoder paths ≠ []) (hs : s.aggregate.poisoned = false) :
    ∃ q, q.Agrees (p.grant (batchPolls disk s.decoder paths + 1)).2 ∧
      importPlan disk paths s p =
        (.merge (s.aggregate.value.loadAll (goodFiles disk s.decoder paths)) fun o =>
          .report ⟨(goodFiles disk s.decoder paths).map fun f => f.status true, badFiles disk s.decoder paths, o⟩, q) := by
  obtain ⟨q, hq, hplan⟩ := importPlan_read h hg
  refine ⟨q, hq, ?_⟩
  rw [hplan, Guarded.read, if_neg (by rw [hs]; decide)]

theorem importPlan_unloaded (h : goodFiles disk s.decoder paths = [] ∨
      (p.grant (batchPolls disk s.decoder paths + 1)).1 ≠ .completed) :
    ∃ a q, importPlan disk paths s p = (.answer a, q) ∧
      (goodFiles disk s.decoder paths ≠ [] → ∀ o, a.outcome? = some o → o = .cancelled) := by
  by_cases hread : (p.grant (readingPolls disk s.decoder paths)).1 = .completed
  · by_cases hgood : goodFiles disk s.decoder paths = []
    · rw [readingPolls_nothing hgood] at hread
      obtain ⟨q, hplan⟩ := importPlan_nothing (s := s) hread hgood
      exact ⟨_, q, hplan, fun hne => absurd hgood hne⟩
    · rw [readingPolls_loading hgood] at hread
      exact absurd hread (h.resolve_left hgood)
  · obtain ⟨failed, q, hplan⟩ := importPlan_stopped (s := s) hread
    exact ⟨_, q, hplan, fun _ o ho => stopped_outcome ho⟩

end

def batch? : Operation → Progress → Option (List Path × Progress)
  | .importFiles paths, p => some (paths, p)
  | .spawnImport paths token, _ => some (paths, .ofToken token.cancelled)
  | _, _ => none

theorem plan_batch {disk : FileSystem} {op : Operation} {paths : List Path} {s : Session} {p q : Progress}
    (h : batch? op p = some (paths, q)) : plan disk op s p = importPlan disk paths s q := by
  cases op with
  | importFiles paths => cases h; rfl
  | spawnImport paths token => cases h; rfl
  | refresh => cases h
  | clear => cases h
  | remove path => cases h
  | setEnabled path enabled => cases h

section

variable {disk : FileSystem} {paths : List Path} {s : Session} {p q : Progress}

theorem import_answered {a : Answer} (hs : s.Idle) (h : importPlan disk paths s p = (.answer a, q)) :
    (s.run disk (.importFiles paths) p).answer = a ∧ (s.run disk (.importFiles paths) p).session = s := by
  have hplan : plan disk (.importFiles paths) s p = (.answer a, q) := h
  obtain ⟨hanswer, hsession, -⟩ := run_answer hs hplan
  exact ⟨hanswer, hsession⟩

theorem import_merged {a : Aggregate} {answer : Outcome → Answer} (hs : s.Idle)
    (h : importPlan disk paths s p = (.merge a answer, q)) :
    (s.run disk (.importFiles paths) p).answer = settle answer (s.recompute a q) ∧
      (s.run disk (.importFiles paths) p).session = (s.recompute a q).2.1.released := by
  have hplan : plan disk (.importFiles paths) s p = (.merge a answer, q) := h
  exact run_merge hs hplan

end

end Session

end InstructionCoverage
