import InstructionCoverage.Proofs.Model.Hits
import InstructionCoverage.Proofs.Session.Batch
import InstructionCoverage.Proofs.Session.Consistency

namespace InstructionCoverage

open Progress RangeFile

inductive FileTable.Adds (t : FileTable) : Operation → Prop
  | importFiles {paths : List Path} (new : ∀ path ∈ paths, t.contains path = false) : Adds t (.importFiles paths)
  | spawnImport {paths : List Path} (token : CancellationToken) (new : ∀ path ∈ paths, t.contains path = false) :
      Adds t (.spawnImport paths token)
  | enable (path : Path) : Adds t (.setEnabled path true)

inductive Operation.Drops : Operation → Prop
  | remove (path : Path) : Drops (.remove path)
  | disable (path : Path) : Drops (.setEnabled path false)

namespace FileTable

section Union

variable {t : FileTable} {r : AddressRange}

theorem mem_union_loadAll {fs : List RangeFile} (h : ∀ f ∈ fs, t.contains f.path = false) (hr : r ∈ t.union) :
    r ∈ (fs.foldl load t).union := by
  obtain ⟨p, f, hc, hf⟩ := mem_union.1 hr
  refine mem_union.2 ⟨p, f, ?_, hf⟩
  rw [content?_loadAll_other, hc]
  intro g hg hkey
  have hcontains : t.contains p = true := (contains_iff t p).2 ⟨f, true, hc⟩
  rw [contains, ← find?_congr hkey] at hcontains
  exact absurd ((h g hg).symm.trans hcontains) (by decide)

theorem mem_union_enable (p : Path) (hr : r ∈ t.union) : r ∈ (t.setEnabled p true).union := by
  obtain ⟨q, f, hc, hf⟩ := mem_union.1 hr
  refine mem_union.2 ⟨q, f, ?_, hf⟩
  rw [content?_setEnabled, hc]
  split <;> rfl

theorem mem_union_of_disable {p : Path} (hr : r ∈ (t.setEnabled p false).union) : r ∈ t.union := by
  obtain ⟨q, f, hc, hf⟩ := mem_union.1 hr
  refine mem_union.2 ⟨q, f, ?_, hf⟩
  rw [content?_setEnabled] at hc
  split at hc
  · obtain ⟨c, -, hc⟩ := Option.map_eq_some_iff.1 hc
    cases hc
  · exact hc

theorem mem_union_of_erase {p : Path} (hr : r ∈ (t.erase p).union) : r ∈ t.union := by
  obtain ⟨q, f, hc, hf⟩ := mem_union.1 hr
  refine mem_union.2 ⟨q, f, ?_, hf⟩
  rw [content?_erase] at hc
  split at hc
  · cases hc
  · exact hc

end Union

def next (disk : FileSystem) (d : LineDecoder) (t : FileTable) : Operation → FileTable
  | .importFiles paths => (Session.goodFiles disk d paths).foldl load t
  | .spawnImport paths _ => (Session.goodFiles disk d paths).foldl load t
  | .refresh => t
  | .clear => empty
  | .remove path => t.erase path
  | .setEnabled path enabled => t.setEnabled path enabled

end FileTable

section Next

variable {disk : FileSystem} {d : LineDecoder} {t : FileTable} {op : Operation} {r : AddressRange}

theorem Session.goodFiles_new {paths : List Path} (h : ∀ path ∈ paths, t.contains path = false) :
    ∀ f ∈ goodFiles disk d paths, t.contains f.path = false := by
  intro f hf
  obtain ⟨path, hpath, hok⟩ := mem_goodFiles.1 hf
  obtain ⟨-, -, -, rfl, -⟩ := fileAt_ok hok
  exact h _ hpath

theorem FileTable.Adds.mem_union (h : t.Adds op) (hr : r ∈ t.union) : r ∈ (t.next disk d op).union := by
  cases h with
  | importFiles new => exact mem_union_loadAll (Session.goodFiles_new new) hr
  | spawnImport token new => exact mem_union_loadAll (Session.goodFiles_new new) hr
  | enable path => exact mem_union_enable path hr

theorem Operation.Drops.mem_union (h : op.Drops) (hr : r ∈ (t.next disk d op).union) : r ∈ t.union := by
  cases h with
  | remove path => exact FileTable.mem_union_of_erase hr
  | disable path => exact FileTable.mem_union_of_disable hr

end Next

namespace Session

def Matches (s : Session) : Prop :=
  s.hits = .ok (Alignment.hitsOf s.listing s.aggregate.value.files.union).toList

theorem Consistent.matches {s : Session} (h : Consistent s) : s.Matches := by
  rw [Matches, Session.hits, Guarded.read, h.alignment, ← h.hits]
  rfl

section Step

variable {l : Listing} {s : Session} {disk : FileSystem} {op : Operation} {p q : Progress} {a : Aggregate}
  {answer : Outcome → Answer}

theorem importPlan_files {paths : List Path} (h : importPlan disk paths s p = (.merge a answer, q)) :
    a.files = (goodFiles disk s.decoder paths).foldl FileTable.load s.aggregate.value.files := by
  have hopen := (importPlan_merge h).1
  by_cases hread : goodFiles disk s.decoder paths = [] ∨
      (p.grant (batchPolls disk s.decoder paths + 1)).1 ≠ .completed
  · obtain ⟨b, q', hplan, -⟩ := importPlan_unloaded (s := s) hread
    rw [hplan] at h
    cases h
  · rw [not_or, not_not] at hread
    obtain ⟨q', -, hplan⟩ := importPlan_loaded hread.2 hread.1 hopen
    rw [hplan] at h
    cases h
    exact Aggregate.loadAll_files _ _

theorem plan_files (h : plan disk op s p = (.merge a answer, q)) :
    a.files = s.aggregate.value.files.next disk s.decoder op := by
  cases op with
  | importFiles paths => exact importPlan_files h
  | spawnImport paths token => exact importPlan_files h
  | refresh =>
    obtain ⟨-, -, hstep⟩ := changePlan_merge (Prod.ext_iff.1 h).1
    cases hstep
    rfl
  | clear =>
    rw [plan] at h
    split at h <;> cases h
  | remove path =>
    obtain ⟨-, -, hstep⟩ := changePlan_merge (Prod.ext_iff.1 h).1
    rw [Aggregate.remove?] at hstep
    split at hstep <;> cases hstep
    rfl
  | setEnabled path enabled =>
    obtain ⟨-, -, hstep⟩ := changePlan_merge (Prod.ext_iff.1 h).1
    rw [Aggregate.setEnabled?] at hstep
    split at hstep <;> cases hstep
    rfl

theorem propagate_files (s : Session) (a : Aggregate) (p : Progress) :
    (s.propagate a p).2.1.aggregate.value.files = a.files := by
  rw [propagate_stage]

theorem run_files (hs : s.Idle) (h : s.reaches disk op p = true) :
    (s.run disk op p).session.aggregate.value.files = s.aggregate.value.files.next disk s.decoder op := by
  cases hp : plan disk op s p with
  | mk pl q =>
    cases pl with
    | answer a =>
      rw [reaches, hp] at h
      cases h
    | merge a answer =>
      rw [(run_merge hs hp).2, ← plan_files hp]
      exact recompute_files s a q
    | clear a =>
      obtain ⟨rfl, -, rfl, -⟩ := plan_clear hp
      rw [(run_clear hs hp).2]
      exact propagate_files s _ q

theorem matches_run (hs : Sound l s) (hm : s.Matches) (hc : (s.run disk op p).answer.outcome? = some .completed) :
    (s.run disk op p).session.Matches ∧
      ((s.run disk op p).session.aggregate.value.files = s.aggregate.value.files.next disk s.decoder op ∨
        (s.run disk op p).session = s) := by
  by_cases hr : s.reaches disk op p = true
  · exact ⟨(consistent_run hs hr hc).matches, .inl (run_files hs.idle hr)⟩
  · have hsame := run_not_reaching hs hr
    rw [hsame]
    exact ⟨hm, .inr rfl⟩

theorem hits_run (hs : Sound l s) (hm : s.Matches) (hc : (s.run disk op p).answer.outcome? = some .completed) :
    (s.run disk op p).session.Matches ∧ ∃ before after, s.hits = .ok before ∧ (s.run disk op p).session.hits = .ok after ∧
      (s.aggregate.value.files.Adds op → ∀ hit ∈ before, hit ∈ after) ∧ (op.Drops → ∀ hit ∈ after, hit ∈ before) := by
  obtain ⟨hmatches, htable⟩ := matches_run hs hm hc
  refine ⟨hmatches, _, _, hm, hmatches, ?_⟩
  rcases htable with htable | hsame
  · rw [(setup_run hs.idle disk op p).listing, htable]
    refine ⟨fun hadds hit hhit => ?_, fun hdrops hit hhit => ?_⟩
    · exact Alignment.hitsOf_mono (fun r hr => hadds.mem_union hr) hhit
    · exact Alignment.hitsOf_mono (fun r hr => hdrops.mem_union hr) hhit
  · rw [hsame]
    exact ⟨fun _ _ h => h, fun _ _ h => h⟩

end Step

/-- What is hit is told by the set of raw ranges alone, range by range. So in a session that is up to date a new or
newly enabled file loses no hit, and a file that is removed or disabled adds none. -/
theorem hits_union (l : Listing) :
    (∀ (ranges : List AddressRange) (p : Progress), p.Lenient →
      (Alignment.align l ranges [] p).1 = .completed ∧
        .ofList (Alignment.align l ranges [] p).2.1 = Alignment.hitsOf l ranges) ∧
    (∀ (R S : List AddressRange) (hit : AddressRange),
      hit ∈ Alignment.hitsOf l (R ++ S) ↔ hit ∈ Alignment.hitsOf l R ∨ hit ∈ Alignment.hitsOf l S) ∧
    (∀ R S : List AddressRange, (∀ r, r ∈ R ↔ r ∈ S) → Alignment.hitsOf l R = Alignment.hitsOf l S) ∧
    (∀ t u : FileTable,
      (∀ r, (∃ p f, t.content? p = some (f, true) ∧ r ∈ f.ranges) ↔ ∃ p f, u.content? p = some (f, true) ∧ r ∈ f.ranges) →
      Alignment.hitsOf l t.union = Alignment.hitsOf l u.union) ∧
    ∀ s : Session, Reachable l s → s.Matches → ∀ (disk : FileSystem) (op : Operation) (p : Progress),
      (s.run disk op p).answer.outcome? = some .completed →
      (s.run disk op p).session.Matches ∧
        ∃ before after, s.hits = .ok before ∧ (s.run disk op p).session.hits = .ok after ∧
          (s.aggregate.value.files.Adds op → ∀ hit ∈ before, hit ∈ after) ∧
          (op.Drops → ∀ hit ∈ after, hit ∈ before) := by
  refine ⟨fun ranges p hp => Alignment.align_lenient l ranges hp, fun R S hit => Alignment.mem_hitsOf_append,
    fun R S h => Alignment.hitsOf_congr h, fun t u h => ?_, fun s hs hm disk op p hc => hits_run hs.sound hm hc⟩
  apply Alignment.hitsOf_congr
  intro r
  rw [FileTable.mem_union, FileTable.mem_union]
  exact h r

theorem hits_union_second_file :
    let s := ((ofListing smallListing).run mixedDisk (.importFiles [⟨"a.cov"⟩]) .unbounded).session
    let r := s.run mixedDisk (.importFiles [⟨"b.cov"⟩]) .unbounded
    let q := r.session.run mixedDisk (.setEnabled ⟨"b.cov"⟩ false) .unbounded
    Reachable smallListing s ∧ s.Matches ∧ r.answer.outcome? = some .completed ∧ q.answer.outcome? = some .completed ∧
      s.aggregate.value.files.Adds (.importFiles [⟨"b.cov"⟩]) ∧
      ∃ first second third, s.hits = .ok first ∧ r.session.hits = .ok second ∧ q.session.hits = .ok third ∧
        (∀ hit ∈ first, hit ∈ second) ∧ ∀ hit ∈ third, hit ∈ second := by
  intro s r q
  have hstart : History smallListing (ofListing smallListing) none := .start
  have hs : Reachable smallListing s := ⟨_, hstart.request _ _ _⟩
  have hm : s.Matches := by
    have hreaches : (ofListing smallListing).reaches mixedDisk (.importFiles [⟨"a.cov"⟩]) .unbounded = true := by
      decide +kernel
    exact ((hstart.reached hreaches).consistent (by decide +kernel)).matches
  have hr : r.answer.outcome? = some .completed := by decide +kernel
  have hq : q.answer.outcome? = some .completed := by decide +kernel
  have hadds : s.aggregate.value.files.Adds (.importFiles [⟨"b.cov"⟩]) := .importFiles (by decide +kernel)
  obtain ⟨-, -, -, -, hstep⟩ := hits_union smallListing
  obtain ⟨hm', first, second, hfirst, hsecond, hgrown, -⟩ := hstep s hs hm mixedDisk _ _ hr
  obtain ⟨-, second', third, hsecond', hthird, -, hshrunk⟩ :=
    hstep r.session (hs.run mixedDisk _ _) hm' mixedDisk (.setEnabled ⟨"b.cov"⟩ false) .unbounded hq
  obtain rfl : second = second' := Except.ok.inj (hsecond.symm.trans hsecond')
  exact ⟨hs, hm, hr, hq, hadds, first, second, third, hfirst, hsecond, hthird, hgrown hadds, hshrunk (.disable _)⟩

end Session

end InstructionCoverage
