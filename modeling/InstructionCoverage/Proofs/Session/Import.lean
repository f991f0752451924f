import InstructionCoverage.Proofs.FileSystem
import InstructionCoverage.Proofs.Session.Cancellation
import InstructionCoverage.Proofs.Session.Consistency

namespace InstructionCoverage

open Progress

namespace Session

open RangeFile

theorem mem_union_goodFiles {disk : FileSystem} {d : LineDecoder} {paths : List Path} (hdisk : disk.Coherent)
    {r : AddressRange} :
    r ∈ ((goodFiles disk d paths).foldl FileTable.load .empty).union ↔
      ∃ path ∈ paths, ∃ bytes, disk path = .ok bytes ∧ Covers d bytes r := by
  rw [FileTable.mem_union]
  constructor
  · rintro ⟨p, f, hc, hr⟩
    have hlatest : FileTable.latest? (goodFiles disk d paths) p = some f := by
      rw [FileTable.content?_loadAll] at hc
      cases hl : FileTable.latest? (goodFiles disk d paths) p with
      | none => rw [hl] at hc; cases hc
      | some g => rw [hl] at hc; cases hc; rfl
    have hf : f ∈ goodFiles disk d paths := List.mem_reverse.1 (List.mem_of_find?_eq_some hlatest)
    obtain ⟨path, hpath, hok⟩ := mem_goodFiles.1 hf
    obtain ⟨bytes, hb, -, -, hcovers⟩ := fileAt_ok hok
    exact ⟨path, hpath, bytes, hb, (hcovers r).1 hr⟩
  · rintro ⟨path, hpath, bytes, hb, hr⟩
    obtain ⟨f, hf⟩ := fileAt_of_wellFormed hb (covers_iff.1 hr).1
    obtain ⟨g, hg, hkey, hc⟩ := FileTable.content?_loadAll_mem (mem_goodFiles.2 ⟨path, hpath, hf⟩) .empty
    obtain ⟨path', hpath', hok⟩ := mem_goodFiles.1 hg
    obtain ⟨bytes', hb', -, rfl, hcovers⟩ := fileAt_ok hok
    obtain ⟨-, -, -, rfl, -⟩ := fileAt_ok hf
    cases hdisk _ _ hkey _ _ hb' hb
    exact ⟨_, g, hc, (hcovers r).2 hr⟩

theorem exists_mem_union_goodFiles {disk : FileSystem} {d : LineDecoder} {paths : List Path} (hdisk : disk.Coherent)
    {p : AddressRange → Prop} :
    (∃ r ∈ ((goodFiles disk d paths).foldl FileTable.load .empty).union, p r) ↔
      ∃ path ∈ paths, ∃ bytes, disk path = .ok bytes ∧ ∃ r, Covers d bytes r ∧ p r := by
  constructor
  · rintro ⟨r, hr, hp⟩
    obtain ⟨path, hpath, bytes, hb, hc⟩ := (mem_union_goodFiles hdisk).1 hr
    exact ⟨path, hpath, bytes, hb, r, hc, hp⟩
  · rintro ⟨path, hpath, bytes, hb, r, hc, hp⟩
    exact ⟨r, (mem_union_goodFiles hdisk).2 ⟨path, hpath, bytes, hb, hc⟩, hp⟩

structure Import where
  op : Operation
  handle : Progress
  paths : List Path
  polled : Progress
  batch : batch? op handle = some (paths, polled)
  lenient : polled.Lenient

def Undisturbed (s : Session) : Prop :=
  ∀ q : Progress, q.Lenient → (reactions s.subscribers q).1 = .completed

theorem undisturbed_of_each {s : Session}
    (h : ∀ u ∈ s.subscribers, ∀ q : Progress, q.Lenient → (u.react q).1 = .completed ∧ (u.react q).2.Lenient) :
    s.Undisturbed := by
  rw [Undisturbed]
  generalize s.subscribers = us at h
  induction us with
  | nil => exact fun q _ => rfl
  | cons u us ih =>
    obtain ⟨hu, hus⟩ := List.forall_mem_cons.1 h
    intro q hq
    obtain ⟨hending, hlenient⟩ := hu q hq
    have hreact : u.react q = (.completed, (u.react q).2) := Prod.ext hending rfl
    rw [reactions, hreact]
    exact ih hus _ hlenient

theorem undisturbed_of_nobody {s : Session} (h : s.subscribers = []) : s.Undisturbed := by
  apply undisturbed_of_each
  rw [h]
  exact fun u hu => absurd hu List.not_mem_nil

def reportOf (disk : FileSystem) (d : LineDecoder) (paths : List Path) : ImportReport :=
  ⟨(goodFiles disk d paths).map fun f => f.status true, badFiles disk d paths, .completed⟩

def taking (s : Session) (good : List RangeFile) : Session :=
  if good = [] then s
  else
    let a := (s.aggregate.value.loadAll good).current
    s.withModels a (.ofPublished s.listing a.published)

theorem taking_nil (s : Session) : s.taking [] = s := if_pos rfl

theorem taking_files (s : Session) (good : List RangeFile) :
    (s.taking good).aggregate.value.files = good.foldl FileTable.load s.aggregate.value.files := by
  rw [taking]
  split
  · rename_i h
    rw [h]
    rfl
  · exact Aggregate.loadAll_files _ _

section Import

variable {l : Listing} {s : Session}

theorem recompute_lenient (hs : s.Idle) {a : Aggregate} (ha : a.files.entries ≠ []) {p : Progress} (hp : p.Lenient) :
    ∃ t q, q.Lenient ∧ s.recompute a p = (.completed, t, q) ∧ t.subscribers = s.subscribers ∧
      t.released = s.withModels a.current (.ofPublished s.listing (some a.files.union)) := by
  obtain ⟨t, q, hq, hr, hsubscribers, hmodels⟩ := recompute_completed hs ha (hp.grant _)
  refine ⟨t, q, ?_, hr, hsubscribers, hmodels⟩
  intro k
  rw [hq.1, grant_answers, hp k]

theorem import_unstopped (hs : s.Idle) (hp : s.aggregate.poisoned = false) (hu : s.Undisturbed) (disk : FileSystem)
    (i : Import) :
    (s.run disk i.op i.handle).answer = .report (reportOf disk s.decoder i.paths) ∧
      (s.run disk i.op i.handle).session = s.taking (goodFiles disk s.decoder i.paths) := by
  have hplan : plan disk i.op s i.handle = importPlan disk i.paths s i.polled := plan_batch i.batch
  by_cases hgood : goodFiles disk s.decoder i.paths = []
  · obtain ⟨q, hnothing⟩ := importPlan_nothing (s := s) (i.lenient.grant _) hgood
    obtain ⟨hanswer, hsession, -⟩ := run_answer hs (hplan.trans hnothing)
    rw [hanswer, hsession, reportOf, hgood, taking_nil]
    exact ⟨rfl, rfl⟩
  · obtain ⟨q, hq, hloaded⟩ := importPlan_loaded (i.lenient.grant _) hgood hp
    obtain ⟨hanswer, hsession⟩ := run_merge hs (hplan.trans hloaded)
    have hlenient : q.Lenient := fun k => by rw [hq.1, grant_answers, i.lenient k]
    have hentries : (s.aggregate.value.loadAll (goodFiles disk s.decoder i.paths)).files.entries ≠ [] := by
      rw [Aggregate.loadAll_files]
      exact FileTable.loadAll_ne_nil hgood _
    obtain ⟨t, q', hlenient', hr, hsubscribers, hmodels⟩ := recompute_lenient hs hentries hlenient
    rw [hr] at hanswer hsession
    rw [hanswer, hsession, settle, hsubscribers, hu q' hlenient', hmodels, taking, if_neg hgood]
    exact ⟨rfl, rfl⟩

theorem consistent_taking (hs : Sound l s) (hp : s.aggregate.poisoned = false) {good : List RangeFile}
    (h : good ≠ []) : Consistent (s.taking good) := by
  rw [taking, if_neg h]
  exact ⟨hp, hs.open_alignment hp, rfl, rfl⟩

theorem import_uncancelled (hs : Sound l s) (hp : s.aggregate.poisoned = false)
    (hu : s.subscribers = []) (disk : FileSystem) (paths : List Path) (p : Progress) :
    (s.run disk (.spawnImport paths .fresh) p).answer = .report (reportOf disk s.decoder paths) ∧
      (goodFiles disk s.decoder paths ≠ [] →
        Consistent (s.run disk (.spawnImport paths .fresh) p).session ∧
        (s.run disk (.spawnImport paths .fresh) p).session.aggregate.value.files =
          (goodFiles disk s.decoder paths).foldl FileTable.load s.aggregate.value.files) := by
  obtain ⟨hanswer, hsession⟩ := import_unstopped hs.idle hp (undisturbed_of_nobody hu) disk
    ⟨.spawnImport paths .fresh, p, paths, _, rfl, fun _ => rfl⟩
  rw [hanswer, hsession]
  exact ⟨rfl, fun hgood => ⟨consistent_taking hs hp hgood, taking_files s _⟩⟩

end Import

end Session

end InstructionCoverage
