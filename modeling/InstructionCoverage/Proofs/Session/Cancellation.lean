import InstructionCoverage.Proofs.Session.Batch

/-!
An import under a budget of polls. The budget runs out while parsing, while merging or while aligning, and each
stage either leaves its model as it was or has replaced it whole.
-/

namespace InstructionCoverage

open Progress

def Aggregate.current (a : Aggregate) : Aggregate :=
  { a with union := a.files.union, published := some a.files.union, state := .loaded }

theorem Aggregate.publish_eq_current {a : Aggregate} (h : a.files.entries ≠ []) : a.publish a.files.union = a.current := by
  rw [publish, if_neg (by simpa using h)]
  rfl

namespace Session

open RangeFile

def withModels (s : Session) (a : Aggregate) (b : Alignment) : Session :=
  { s with aggregate := ⟨a, s.aggregate.poisoned⟩, alignment := ⟨b, s.alignment.poisoned⟩ }

theorem Idle.released {s : Session} (h : s.Idle) (a : Aggregate) (b : Alignment) :
    (s.withModels a b).released = s.withModels a b := by
  obtain ⟨hbusy, hchanged⟩ := h
  simp [Session.released, withModels, hbusy, hchanged]

theorem distance_current (a : Aggregate) : Alignment.distance a.current.published = a.files.union.length := rfl

section Budget

variable {s : Session} {a : Aggregate} {p q : Progress} {n : Nat}

theorem recompute_completed (hs : s.Idle) (ha : a.files.entries ≠ [])
    (hp : (p.grant (a.files.size + a.files.union.length)).1 = .completed) :
    ∃ t q, q.Agrees (p.grant (a.files.size + a.files.union.length)).2 ∧ s.recompute a p = (.completed, t, q) ∧
      t.subscribers = s.subscribers ∧
      t.released = s.withModels a.current (.ofPublished s.listing (some a.files.union)) := by
  obtain ⟨q, hq, hr⟩ := recompute_stage (Agrees.refl p) s a
  have hmerged := grant_completed_of_add hp
  rw [grant_completed_add hmerged] at hp ⊢
  obtain ⟨hending, hagrees⟩ := hq.grant a.files.union.length
  rw [hp] at hending
  rw [hr, if_pos hmerged, Aggregate.publish_eq_current ha, propagate_stage, distance_current, ← hs.released]
  dsimp only
  rw [hending]
  refine ⟨_, _, hagrees, rfl, rfl, ?_⟩
  simp [Session.released, withModels, Alignment.followed, Aggregate.current]

theorem recompute_unmerged (hs : s.Idle) (hp : p.answers = (cancelAfter n).answers) (hn : p.polls ≤ n)
    (h : n < p.polls + a.files.size) :
    (s.recompute a p).1 = .cancelled ∧ (s.recompute a p).2.1.released = s.withModels a s.alignment.value := by
  have hg := grant_cancelAfter (k := a.files.size) hp hn
  obtain ⟨p', -, hr⟩ := recompute_stage (Agrees.refl p) s a
  rw [if_neg (by omega)] at hg
  rw [hr, hg, if_neg (by decide)]
  refine ⟨rfl, ?_⟩
  rw [← hs.released]
  simp [Session.released, withModels]

theorem recompute_merged (ha : a.files.entries ≠ []) (hp : p.answers = (cancelAfter n).answers)
    (h : p.polls + a.files.size ≤ n) :
    ∃ q, q.answers = (cancelAfter n).answers ∧ q.polls = p.polls + a.files.size ∧
      s.recompute a p = s.propagate a.current q := by
  have hg := grant_cancelAfter (k := a.files.size) hp (by omega)
  rw [if_pos h] at hg
  obtain ⟨q, hq, hr⟩ := recompute_stage (Agrees.refl p) s a
  refine ⟨q, ?_, ?_, ?_⟩
  · rw [hq.1, grant_answers, hp]
  · rw [hq.2, grant_polls hg]
  · rw [hr, hg, if_pos rfl, Aggregate.publish_eq_current ha]

theorem recompute_unaligned (hs : s.Idle) (ha : a.files.entries ≠ []) (hp : p.answers = (cancelAfter n).answers)
    (hm : p.polls + a.files.size ≤ n) (h : n < p.polls + a.files.size + a.files.union.length) :
    (s.recompute a p).1 = .cancelled ∧
      (s.recompute a p).2.1.released = s.withModels a.current s.alignment.value := by
  obtain ⟨q, hanswers, hpolls, hr⟩ := recompute_merged (s := s) ha hp hm
  have hg := grant_cancelAfter (k := a.files.union.length) hanswers (by omega)
  rw [if_neg (by omega)] at hg
  rw [hr, propagate_stage, distance_current, ← hs.released]
  dsimp only
  rw [hg]
  refine ⟨rfl, ?_⟩
  simp [Session.released, withModels, Alignment.followed]

theorem recompute_aligned (hs : s.Idle) (ha : a.files.entries ≠ []) (hp : p.answers = (cancelAfter n).answers)
    (h : p.polls + a.files.size + a.files.union.length ≤ n) :
    ∃ t q, q.answers = (cancelAfter n).answers ∧ q.polls = p.polls + a.files.size + a.files.union.length ∧
      s.recompute a p = (.completed, t, q) ∧ t.subscribers = s.subscribers ∧
      t.released = s.withModels a.current (.ofPublished s.listing (some a.files.union)) := by
  have hg := grant_cancelAfter (k := a.files.size + a.files.union.length) hp (by omega)
  rw [if_pos (by omega)] at hg
  obtain ⟨t, q, hq, hr, hsubscribers, hmodels⟩ := recompute_completed hs ha hg
  refine ⟨t, q, ?_, ?_, hr, hsubscribers, hmodels⟩
  · rw [hq.1, grant_answers, hp]
  · rw [hq.2, grant_polls hg]
    omega

end Budget

structure Loaded (before after : FileTable) (good : List RangeFile) : Prop where
  present : ∀ f ∈ good, ∃ g ∈ good, g.path.key = f.path.key ∧ after.content? f.path = some (g, true)
  others : ∀ p, (∀ f ∈ good, f.path.key ≠ p.key) → after.content? p = before.content? p

theorem loaded_loadAll (a : Aggregate) (good : List RangeFile) : Loaded a.files (a.loadAll good).files good := by
  rw [Aggregate.loadAll_files]
  exact ⟨fun f hf => FileTable.content?_loadAll_mem hf a.files, fun p hp => FileTable.content?_loadAll_other hp a.files⟩

theorem settle_cancelled {answer : Outcome → Answer} {r : Ending × Session × Progress} (h : r.1 = .cancelled) :
    settle answer r = answer .cancelled := by
  obtain ⟨ending, s, p⟩ := r
  cases h
  rfl

theorem grant_budget (k n : Nat) : ((cancelAfter n).grant k).1 = if k ≤ n then .completed else .cancelled := by
  have hg := grant_cancelAfter (k := k) (p := cancelAfter n) rfl (Nat.zero_le n)
  rwa [show (cancelAfter n).polls = 0 from rfl, Nat.zero_add] at hg

section Import

variable {s : Session} {disk : FileSystem} {paths : List Path} {n : Nat}

theorem import_unloaded (hs : s.Idle) (h : n < batchPolls disk s.decoder paths ∨
      goodFiles disk s.decoder paths ≠ [] ∧ n < batchPolls disk s.decoder paths + 1) :
    (s.run disk (.importFiles paths) (.cancelAfter n)).session = s ∧
      ∃ failed, (s.run disk (.importFiles paths) (.cancelAfter n)).answer = .report ⟨[], failed, .cancelled⟩ := by
  obtain ⟨failed, q, hp⟩ : ∃ failed q,
      importPlan disk paths s (.cancelAfter n) = (.answer (.report ⟨[], failed, .cancelled⟩), q) := by
    rcases h with h | ⟨hgood, h⟩
    · apply importPlan_batch_cut
      rw [grant_budget, if_neg (by omega)]
    · apply importPlan_cut hgood
      rw [grant_budget, if_neg (by omega)]
  obtain ⟨hanswer, hsession⟩ := import_answered hs hp
  exact ⟨hsession, failed, hanswer⟩

theorem import_nothing (hs : s.Idle) (hgood : goodFiles disk s.decoder paths = [])
    (h : batchPolls disk s.decoder paths ≤ n) :
    (s.run disk (.importFiles paths) (.cancelAfter n)).session = s ∧
      (s.run disk (.importFiles paths) (.cancelAfter n)).answer =
        .report ⟨[], badFiles disk s.decoder paths, .completed⟩ := by
  have hg : ((cancelAfter n).grant (batchPolls disk s.decoder paths)).1 = .completed := by
    rw [grant_budget, if_pos h]
  obtain ⟨q, hp⟩ := importPlan_nothing hg hgood
  obtain ⟨hanswer, hsession⟩ := import_answered hs hp
  exact ⟨hsession, hanswer⟩

theorem import_loaded (hs : s.Idle) (hp : s.aggregate.poisoned = false) (hgood : goodFiles disk s.decoder paths ≠ [])
    (h : batchPolls disk s.decoder paths < n) :
    ∃ q, q.answers = (cancelAfter n).answers ∧ q.polls = batchPolls disk s.decoder paths + 1 ∧
      (s.run disk (.importFiles paths) (.cancelAfter n)).answer =
        settle (fun o => .report ⟨(goodFiles disk s.decoder paths).map fun f => f.status true,
          badFiles disk s.decoder paths, o⟩)
          (s.recompute (s.aggregate.value.loadAll (goodFiles disk s.decoder paths)) q) ∧
      (s.run disk (.importFiles paths) (.cancelAfter n)).session =
        (s.recompute (s.aggregate.value.loadAll (goodFiles disk s.decoder paths)) q).2.1.released := by
  have hg : ((cancelAfter n).grant (batchPolls disk s.decoder paths + 1)).1 = .completed := by
    rw [grant_budget, if_pos (by omega)]
  obtain ⟨q, hq, himport⟩ := importPlan_loaded hg hgood hp
  obtain ⟨hanswer, hsession⟩ := import_merged hs himport
  refine ⟨q, ?_, ?_, hanswer, hsession⟩
  · rw [hq.1, grant_answers]
  · rw [hq.2, grant_polls hg]
    exact Nat.zero_add _

end Import

theorem import_cut {l : Listing} {s : Session} (h : Reachable l s) (hs : s.aggregate.poisoned = false)
    (disk : FileSystem) (paths : List Path) (n : Nat) :
    let r := s.run disk (.importFiles paths) (.cancelAfter n)
    let good := goodFiles disk s.decoder paths
    let bad := badFiles disk s.decoder paths
    let a := s.aggregate.value.loadAll good
    let parsed := batchPolls disk s.decoder paths
    let merged := parsed + 1 + a.files.size
    let aligned := merged + a.files.union.length
    let report := fun o => Answer.report ⟨good.map fun f => f.status true, bad, o⟩
    (good = [] → r.session = s ∧
      (n < parsed → ∃ failed, r.answer = .report ⟨[], failed, .cancelled⟩) ∧
      (parsed ≤ n → r.answer = .report ⟨[], bad, .completed⟩)) ∧
    (good ≠ [] →
      Loaded s.aggregate.value.files a.files good ∧
      a.union = s.aggregate.value.union ∧ a.published = s.aggregate.value.published ∧
      (n ≤ parsed → r.session = s ∧ ∃ failed, r.answer = .report ⟨[], failed, .cancelled⟩) ∧
      (parsed < n → n < merged → r.session = s.withModels a s.alignment.value ∧ r.answer = report .cancelled) ∧
      (merged ≤ n → n < aligned →
        r.session = s.withModels a.current s.alignment.value ∧ r.answer = report .cancelled) ∧
      (aligned ≤ n →
        r.session = s.withModels a.current (.ofPublished l (some a.files.union)) ∧
        ∃ q, q.answers = (cancelAfter n).answers ∧ q.polls = aligned ∧
          r.answer = match (reactions s.subscribers q).1 with
            | .completed => report .completed
            | .cancelled => report .cancelled
            | .panicked => .panicked)) := by
  intro r good bad a parsed merged aligned report
  have hidle := h.sound.idle
  constructor
  · intro hgood
    refine ⟨?_, fun hn => (import_unloaded hidle (.inl hn)).2, fun hn => (import_nothing hidle hgood hn).2⟩
    by_cases hn : n < parsed
    · exact (import_unloaded hidle (.inl hn)).1
    · exact (import_nothing hidle hgood (by omega)).1
  · intro hgood
    have ha : a = { s.aggregate.value with files := a.files, state := .loaded } := by
      rw [Aggregate.loadAll_files]
      exact Aggregate.loadAll_eq _ hgood
    have hne : a.files.entries ≠ [] := by
      rw [Aggregate.loadAll_files]
      exact FileTable.loadAll_ne_nil hgood _
    refine ⟨loaded_loadAll _ _, by rw [ha], by rw [ha], ?_, ?_, ?_, ?_⟩
    · intro hn
      exact import_unloaded hidle (.inr ⟨hgood, by omega⟩)
    · intro hparsed hmerged
      obtain ⟨q, hanswers, hpolls, hanswer, hsession⟩ := import_loaded hidle hs hgood hparsed
      obtain ⟨hending, hmodels⟩ := recompute_unmerged hidle (a := a) hanswers (by omega) (by omega)
      exact ⟨hsession.trans hmodels, hanswer.trans (settle_cancelled hending)⟩
    · intro hmerged haligned
      have hparsed : parsed < n := by omega
      obtain ⟨q, hanswers, hpolls, hanswer, hsession⟩ := import_loaded hidle hs hgood hparsed
      obtain ⟨hending, hmodels⟩ := recompute_unaligned hidle hne hanswers (by omega) (by omega)
      exact ⟨hsession.trans hmodels, hanswer.trans (settle_cancelled hending)⟩
    · intro haligned
      have hparsed : parsed < n := by omega
      obtain ⟨q, hanswers, hpolls, hanswer, hsession⟩ := import_loaded hidle hs hgood hparsed
      obtain ⟨t, q', hanswers', hpolls', hr, hsubscribers, hmodels⟩ :=
        recompute_aligned hidle hne hanswers (by omega)
      rw [hr] at hanswer hsession
      rw [settle, hsubscribers] at hanswer
      rw [hmodels, h.sound.listing] at hsession
      exact ⟨hsession, q', hanswers', by omega, hanswer⟩

def importCutInAlignment : Run :=
  (ofListing smallListing).run smallDisk (.importFiles [⟨"a.cov"⟩]) (.cancelAfter 3)

theorem import_cut_in_alignment :
    Reachable smallListing (ofListing smallListing) ∧ (ofListing smallListing).aggregate.poisoned = false ∧
      importCutInAlignment.session.aggregate.value.published.map List.length = some 1 ∧
      importCutInAlignment.session.alignment.value = .empty := by
  have hr : Reachable smallListing (ofListing smallListing) := ⟨none, .start⟩
  have hcut := (import_cut hr rfl smallDisk [⟨"a.cov"⟩] 3).2 (by decide +kernel)
  obtain ⟨hsession, -⟩ := hcut.2.2.2.2.2.1 (by decide +kernel) (by decide +kernel)
  rw [importCutInAlignment, hsession]
  exact ⟨hr, rfl, by decide +kernel, rfl⟩

end Session

end InstructionCoverage
