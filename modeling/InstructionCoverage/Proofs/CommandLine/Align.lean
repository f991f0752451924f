import InstructionCoverage.Proofs.CommandLine.Report
import InstructionCoverage.Proofs.Disassembly.Walk
import InstructionCoverage.Proofs.Session.Import

namespace InstructionCoverage

open Progress RangeFile Session

namespace Disassembly

theorem mem_hitsOf_blob (d : InstructionDecoder) {base : Address} {bytes : List UInt8}
    (h : base.value + bytes.length ≤ 0x10000000000000000) {ranges : List AddressRange} {span : AddressRange} :
    span ∈ Alignment.hitsOf (ofBlob d bytes base).toListing ranges ↔
      ∃ step ∈ Sweep.steps d 0 bytes, span.min.value = base.value + step.1 ∧
        span.max.value = base.value + step.1 + step.2 - 1 ∧
        ∃ range ∈ ranges, range.min ≤ span.min ∧ span.max ≤ range.max := by
  have hdisjoint : (ofBlob d bytes base).instructions.Pairwise fun i j => i.last < j.address := by
    rw [sorted_sweep d h]
    exact Sweep.sweep_disjoint d h
  have hspan {step : Nat × Nat} (hstep : step ∈ Sweep.steps d 0 bytes) :
      (Sweep.instructionAt base step).span = span ↔ span.min.value = base.value + step.1 ∧
        span.max.value = base.value + step.1 + step.2 - 1 := by
    obtain ⟨-, hpos, hto⟩ := Sweep.steps_bounds hstep
    obtain ⟨hfirst, hlast⟩ := Sweep.instructionAt_bounds base hpos (by omega)
    rw [AddressRange.eq_iff, Instruction.span, hfirst, hlast]
    exact and_congr eq_comm eq_comm
  rw [Alignment.mem_hitsOf]
  simp only [InstructionListing.mem_instructionsWithin hdisjoint, sorted_sweep d h, Sweep.sweep_eq_steps d h,
    List.mem_map]
  constructor
  · rintro ⟨range, hrange, i, ⟨⟨step, hstep, rfl⟩, hmin, hmax⟩, rfl⟩
    obtain ⟨hfirst, hlast⟩ := (hspan hstep).1 rfl
    exact ⟨step, hstep, hfirst, hlast, range, hrange, hmin, hmax⟩
  · rintro ⟨step, hstep, hfirst, hlast, range, hrange, hmin, hmax⟩
    obtain rfl := (hspan hstep).2 ⟨hfirst, hlast⟩
    exact ⟨range, hrange, _, ⟨⟨step, hstep, rfl⟩, hmin, hmax⟩, rfl⟩

end Disassembly

namespace CommandLine

structure RawTarget (disk : FileSystem) (t : Target) (base : Address) (blob : List UInt8) (arch : Architecture) :
    Prop where
  address : baseAddress t.base = .ok base
  readable : disk t.binary = .ok blob
  noImage : ∀ program, Image.identify blob ≠ .program program
  architecture : Architecture.ofName? (t.architecture.getD "x86_64") = some arch
  fits : base.value + blob.length ≤ 0x10000000000000000

section Raw

variable {disk : FileSystem} {t : Target} {base : Address} {blob : List UInt8} {arch : Architecture}

def rawSession (m : Disassembler) (arch : Architecture) (base : Address) (blob : List UInt8) : Session :=
  Session.ofListing (Disassembly.ofBlob (m arch) blob base).toListing

theorem openSession_raw (h : RawTarget disk t base blob arch) (m : Disassembler) :
    openSession disk t .hexRange m = .ok (rawSession m arch base blob) := by
  have hload : Disassembly.load blob t.architecture base m = .ok ⟨arch, Disassembly.ofBlob (m arch) blob base⟩ := by
    have hraw : Disassembly.ofRaw blob base (t.architecture.getD "x86_64") m =
        .ok ⟨arch, Disassembly.ofBlob (m arch) blob base⟩ := by
      rw [Disassembly.ofRaw, Disassembly.namedArchitecture, h.architecture]
      rfl
    rw [Disassembly.load]
    split
    · rename_i program hp
      exact absurd hp (h.noImage program)
    · exact hraw
  rw [openSession, h.address, h.readable]
  change (Disassembly.load blob t.architecture base m).mapError _ >>= _ = _
  rw [hload]
  rfl

theorem rawSession_sound (m : Disassembler) (arch : Architecture) (base : Address) (blob : List UInt8) :
    Sound (Disassembly.ofBlob (m arch) blob base).toListing (rawSession m arch base blob) :=
  History.sound .start

end Raw

theorem printRanges_consistent {s : Session} (h : Consistent s) (json : Bool) (imported : Nat) :
    printRanges false json s imported =
      .ok (hitsText json imported s.aggregate.value.files.union.length s.alignment.value.hits.toList) := by
  have hraw : s.rawRanges = .ok s.aggregate.value.files.union := by
    rw [Session.rawRanges, Guarded.read, h.aggregate, ← h.union]
    rfl
  have hhits : s.hits = .ok s.alignment.value.hits.toList := by
    rw [Session.hits, Guarded.read, h.alignment]
    rfl
  rw [printRanges, hraw, hhits, hitsText]
  cases json with
  | true => exact congrArg Except.ok (pretty_alignJson _ _ _)
  | false => exact congrArg Except.ok (rangesText_eq _ _)

section Import

variable {disk : FileSystem} {files : List Path} {l : Listing} {s : Session}

theorem withImported_nothing (hs : Sound l s) (hp : s.aggregate.poisoned = false) (hu : s.subscribers = [])
    (hfiles : files ≠ []) (hgood : goodFiles disk s.decoder files = [])
    (print : Session → Nat → Except SessionError String) :
    (withImported disk files .fresh s print).exitCode = 1 := by
  obtain ⟨hanswer, -⟩ := import_uncancelled hs hp hu disk files .unbounded
  rw [reportOf, hgood] at hanswer
  rw [withImported, hanswer]
  simp [importFailure, hfiles, Result.exitCode]

theorem withImported_hits (hs : Sound l s) (hp : s.aggregate.poisoned = false) (hu : s.subscribers = [])
    (hgood : goodFiles disk s.decoder files ≠ []) (json : Bool) :
    let good := goodFiles disk s.decoder files
    let union := (good.foldl FileTable.load s.aggregate.value.files).union
    (withImported disk files .fresh s (printRanges false json)).exitCode = 0 ∧
      (withImported disk files .fresh s (printRanges false json)).out =
        hitsText json good.length union.length (Alignment.hitsOf l union).toList := by
  obtain ⟨hanswer, himport⟩ := import_uncancelled hs hp hu disk files .unbounded
  obtain ⟨hconsistent, htable⟩ := himport hgood
  have hlisting := (hs.run disk (.spawnImport files .fresh) .unbounded).listing
  have hnone : importFailure files (.report (reportOf disk s.decoder files)) = none := by
    simp [importFailure, reportOf, hgood]
  have himported : importedCount (.report (reportOf disk s.decoder files)) = (goodFiles disk s.decoder files).length :=
    List.length_map _
  rw [withImported, hanswer, hnone, printRanges_consistent hconsistent, hconsistent.hits, htable, hlisting, himported]
  exact ⟨rfl, rfl⟩

end Import

/-- The command succeeds exactly if one of the files is well-formed, and prints the instructions of the code that
some line of such a file covers whole, each once and in order. Each line that it prints of them is read back as the hit. -/
theorem align_exact {disk : FileSystem} (hdisk : disk.Coherent) {t : Target} {base : Address} {blob : List UInt8}
    {arch : Architecture} (ht : RawTarget disk t base blob arch) (m : Disassembler) {files : List Path}
    (hfiles : files ≠ []) (json : Bool) :
    let r := alignCommand disk t files false json .fresh m
    let good := goodFiles disk .hexRange files
    let union := (good.foldl FileTable.load .empty).union
    (r.exitCode = 0 ↔ ∃ path ∈ files, ∃ bytes, disk path = .ok bytes ∧ WellFormed .hexRange bytes) ∧
      (r.exitCode = 0 → ∃ hits : List AddressRange, hits.Pairwise (· < ·) ∧
        (∀ span, span ∈ hits ↔
          ∃ step ∈ Sweep.steps (m arch) 0 blob, span.min.value = base.value + step.1 ∧
            span.max.value = base.value + step.1 + step.2 - 1 ∧
            ∃ path ∈ files, ∃ bytes, disk path = .ok bytes ∧
              ∃ range, Covers .hexRange bytes range ∧ range.min ≤ span.min ∧ span.max ≤ range.max) ∧
        (json = false →
          let lines := hits.map fun span => s!"  {span.min.toString}-{span.max.toString}"
          r.out = s!"Instruction hits: {hits.length}\n" ++ String.join (lines.map (· ++ "\n")) ∧
            lines.map LineDecoder.hexRange.decode = hits.map fun span => .ok (some span)) ∧
        (json = true → r.out = hitsDocument good.length union.length hits)) := by
  intro r good union
  have hrun : r = withImported disk files .fresh (rawSession m arch base blob) (printRanges false json) := by
    have hopen := openSession_raw ht m
    simp only [r, alignCommand, withSession, hopen]
  have hs := rawSession_sound m arch base blob
  have hfound : goodFiles disk (rawSession m arch base blob).decoder files ≠ [] ↔
      ∃ path ∈ files, ∃ bytes, disk path = .ok bytes ∧ WellFormed .hexRange bytes := goodFiles_ne_nil
  rw [hrun, ← hfound]
  by_cases hgood : goodFiles disk (rawSession m arch base blob).decoder files = []
  · have hexit := withImported_nothing hs rfl rfl hfiles hgood (printRanges false json)
    rw [hexit]
    exact ⟨⟨fun h => absurd h (by decide), fun h => absurd hgood h⟩, fun h => absurd h (by decide)⟩
  · obtain ⟨hexit, hout⟩ := withImported_hits hs rfl rfl hgood json
    refine ⟨⟨fun _ => hgood, fun _ => hexit⟩, fun _ => ?_⟩
    let hits := Alignment.hitsOf (Disassembly.ofBlob (m arch) blob base).toListing union
    refine ⟨hits.toList, hits.ascending, ?exact, ?lines, ?document⟩
    case exact =>
      intro span
      rw [← RangeSet.mem_def, Disassembly.mem_hitsOf_blob (m arch) ht.fits]
      rw [exists_mem_union_goodFiles hdisk]
    case lines =>
      rintro rfl
      exact ⟨hout, map_decode_hitLine hits.toList⟩
    case document =>
      rintro rfl
      exact hout

def smallCode : List UInt8 := [0x55, 0x06, 0x90, 0xc3]

def smallTree : FileTree :=
  ⟨[(["code"], .file smallCode), (["a.cov"], .file [0x31, 0x2d, 0x32, 0x0a]), (["b.cov"], .file [0x31, 0x2d])]⟩

def smallTarget : Target :=
  ⟨⟨"code"⟩, none, none⟩

def smallFiles : List Path :=
  [⟨"b.cov"⟩, ⟨"a.cov"⟩]

theorem smallTree_target : RawTarget smallTree.read smallTarget .zero smallCode .x86_64 where
  address := rfl
  readable := ok_of_toOption (by decide +kernel)
  noImage program h := by cases h
  architecture := by decide +kernel
  fits := by decide

theorem smallTree_read :
    smallTree.read ⟨"a.cov"⟩ = .ok [0x31, 0x2d, 0x32, 0x0a] ∧ smallTree.read ⟨"b.cov"⟩ = .ok [0x31, 0x2d] :=
  ⟨ok_of_toOption (by decide +kernel), ok_of_toOption (by decide +kernel)⟩

theorem covers_small {range : AddressRange} :
    Covers .hexRange [0x31, 0x2d, 0x32, 0x0a] range ↔ range = ⟨.clamp 1, .clamp 2, by decide⟩ := by
  have hscan : scanned .hexRange [0x31, 0x2d, 0x32, 0x0a] = .ok (.ofList [⟨.clamp 1, .clamp 2, by decide⟩], 1) := rfl
  rw [← (scanned_ok_iff.1 hscan).2.2, RangeSet.mem_ofList, List.mem_singleton]

theorem not_covers_cut {range : AddressRange} : ¬ Covers .hexRange [0x31, 0x2d] range := by
  intro h
  exact absurd (wellFormed_iff.1 (covers_iff.1 h).1).1 (by decide)

theorem small_hits {hits : List AddressRange} (hascending : hits.Pairwise (· < ·))
    (hmem : ∀ span, span ∈ hits ↔
      ∃ step ∈ Sweep.steps (Architecture.decoder .x86_64) 0 smallCode, span.min.value = Address.zero.value + step.1 ∧
        span.max.value = Address.zero.value + step.1 + step.2 - 1 ∧
        ∃ path ∈ smallFiles, ∃ bytes, smallTree.read path = .ok bytes ∧
          ∃ range, Covers .hexRange bytes range ∧ range.min ≤ span.min ∧ span.max ≤ range.max) :
    hits = [.single (.clamp 2)] := by
  obtain ⟨ha, hb⟩ := smallTree_read
  have hsteps : Sweep.steps (Architecture.decoder .x86_64) 0 smallCode = [(0, 1), (2, 1), (3, 1)] := by
    decide +kernel
  apply RangeSet.eq_of_pairwise hascending (List.pairwise_singleton _ _)
  intro span
  rw [hmem, hsteps, List.mem_singleton, AddressRange.eq_iff]
  constructor
  · rintro ⟨step, hstep, hmin, hmax, path, hpath, bytes, hbytes, range, hcovers, hfrom, hto⟩
    simp only [smallFiles, List.mem_cons, List.not_mem_nil, or_false] at hpath hstep
    rcases hpath with rfl | rfl
    · cases hb.symm.trans hbytes
      exact absurd hcovers not_covers_cut
    · cases ha.symm.trans hbytes
      obtain rfl := covers_small.1 hcovers
      rw [Address.le_def, hmin] at hfrom
      rw [Address.le_def, hmax] at hto
      rcases hstep with rfl | rfl | rfl
      · exact absurd hfrom (by decide)
      · exact ⟨hmin, hmax⟩
      · exact absurd hto (by decide)
  · rintro ⟨hmin, hmax⟩
    refine ⟨(2, 1), by simp, hmin, hmax, ⟨"a.cov"⟩, by simp [smallFiles], _, ha, _, covers_small.2 rfl, ?_, ?_⟩
    · rw [Address.le_def, hmin]
      decide
    · rw [Address.le_def, hmax]
      decide

theorem align_exact_bad_file :
    let r (json : Bool) := alignCommand smallTree.read smallTarget smallFiles false json .fresh
    FileSystem.Coherent smallTree.read ∧ RawTarget smallTree.read smallTarget .zero smallCode .x86_64 ∧
      smallFiles ≠ [] ∧ (∀ json, (r json).exitCode = 0) ∧ (r false).out = "Instruction hits: 1\n  0x2-0x2\n" ∧
      (r true).out = "\x7b\n  \"files\": 1,\n  \"raw_ranges\": 1,\n  \"hits\": [\n    \x7b\n      \"min\": 2,\n" ++
        "      \"max\": 2\n    \x7d\n  ]\n\x7d\n" := by
  intro r
  have hfiles : smallFiles ≠ [] := List.cons_ne_nil _ _
  have hrun (json : Bool) :=
    align_exact (FileTree.read_coherent smallTree) smallTree_target Architecture.decoder hfiles json
  have hexit (json : Bool) : (r json).exitCode = 0 :=
    (hrun json).1.2 ⟨⟨"a.cov"⟩, by simp [smallFiles], _, smallTree_read.1, (covers_iff.1 (covers_small.2 rfl)).1⟩
  refine ⟨FileTree.read_coherent _, smallTree_target, hfiles, hexit, ?_, ?_⟩
  · obtain ⟨hits, hascending, hmem, hlines, -⟩ := (hrun false).2 (hexit false)
    rw [(hlines rfl).1, small_hits hascending hmem]
    decide +kernel
  · obtain ⟨hits, hascending, hmem, -, hdocument⟩ := (hrun true).2 (hexit true)
    have hgood : (goodFiles smallTree.read .hexRange smallFiles).length = 1 := by decide +kernel
    have hunion : ((goodFiles smallTree.read .hexRange smallFiles).foldl FileTable.load .empty).union.length = 1 := by
      decide +kernel
    have hcounted : (r true).out = hitsDocument 1 1 [.single (.clamp 2)] := by
      rw [hdocument rfl, hgood, hunion, small_hits hascending hmem]
    exact hcounted.trans (by decide +kernel)

end CommandLine

end InstructionCoverage
