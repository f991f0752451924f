import InstructionCoverage.Proofs.Model.Delivery
import Mathlib.Data.List.Induction

/-!
An aggregate against its history: the file table, the union, what is published and the state are all read off the
operations made so far, whatever the handles and the listeners do.
-/

namespace InstructionCoverage

namespace Network

inductive Event where
  | load (f : RangeFile)
  | remove (path : Path)
  | setEnabled (path : Path) (enabled : Bool)
  | update (p : Progress)
  | clear (p : Progress)
  | regroup (dependents : List Dependent) (targets : List Target)

def occur (n : Network) : Event → Network
  | .load f => n.load f
  | .remove path => (n.remove path).2
  | .setEnabled path enabled => (n.setEnabled path enabled).2
  | .update p => (n.update p).2.1
  | .clear p => (n.clear p).2.1
  | .regroup dependents targets => { n with dependents := dependents, targets := targets }

def after (l : Listing) (h : List Event) : Network :=
  h.foldl occur (ofListing l)

theorem after_snoc (l : Listing) (h : List Event) (e : Event) : after l (h ++ [e]) = (after l h).occur e := by
  rw [after, List.foldl_append]
  rfl

/-- `e` is the last event of `h` for which `P` holds. `P` may look at what came before the event. -/
structure Last (P : List Event → Event → Prop) (h before : List Event) (e : Event) (later : List Event) : Prop where
  split : h = before ++ e :: later
  holds : P before e
  final : ∀ mid e' rest, later = mid ++ e' :: rest → ¬ P (before ++ e :: mid) e'

section Last

variable {P : List Event → Event → Prop} {h before later : List Event} {d e : Event}

theorem Last.now (hP : P h e) : Last P (h ++ [e]) h e [] where
  split := rfl
  holds := hP
  final := fun mid e' rest hnil => by simp at hnil

theorem Last.passed (hL : Last P h before d later) (hP : ¬ P h e) : Last P (h ++ [e]) before d (later ++ [e]) where
  split := by rw [hL.split, List.append_assoc, List.cons_append]
  holds := hL.holds
  final := by
    intro mid e' rest hr
    cases rest using List.reverseRecOn with
    | nil =>
      obtain ⟨rfl, he⟩ := List.append_inj' hr rfl
      obtain rfl : e = e' := by simpa using he
      rwa [← hL.split]
    | append_singleton rest x =>
      rw [← List.cons_append, ← List.append_assoc] at hr
      exact hL.final mid e' rest (List.append_inj' hr rfl).1

theorem last_snoc :
    Last P (h ++ [e]) before d later ↔
      (P h e ∧ before = h ∧ d = e ∧ later = []) ∨ (¬ P h e ∧ ∃ l, later = l ++ [e] ∧ Last P h before d l) := by
  constructor
  · intro hL
    cases later using List.reverseRecOn with
    | nil =>
      obtain ⟨rfl, he⟩ := List.append_inj' hL.split rfl
      obtain rfl : e = d := by simpa using he
      exact .inl ⟨hL.holds, rfl, rfl, rfl⟩
    | append_singleton later x =>
      have hsplit := hL.split
      rw [← List.cons_append, ← List.append_assoc] at hsplit
      obtain ⟨rfl, hx⟩ := List.append_inj' hsplit rfl
      obtain rfl : e = x := by simpa using hx
      refine .inr ⟨hL.final later e [] rfl, later, rfl, rfl, hL.holds, ?_⟩
      rintro mid e' rest rfl
      exact hL.final mid e' (rest ++ [e]) (by simp)
  · rintro (⟨hP, rfl, rfl, rfl⟩ | ⟨hP, later, rfl, hL⟩)
    · exact .now hP
    · exact hL.passed hP

variable {σ : Type} {v : Network → σ} {l : Listing}

theorem Last.observed (hkeep : ∀ h e, ¬ P h e → v (after l (h ++ [e])) = v (after l h))
    (hL : Last P h before d later) : v (after l h) = v ((after l before).occur d) := by
  induction h using List.reverseRecOn generalizing later with
  | nil =>
    have hsplit := hL.split
    simp at hsplit
  | append_singleton h e ih =>
    rcases last_snoc.1 hL with ⟨-, rfl, rfl, -⟩ | ⟨hP, later, -, hL⟩
    · rw [after_snoc]
    · rw [hkeep h e hP]
      exact ih hL

theorem observed_of_none (hkeep : ∀ h e, ¬ P h e → v (after l (h ++ [e])) = v (after l h))
    (hnone : ∀ before d later, ¬ Last P h before d later) : v (after l h) = v (ofListing l) := by
  induction h using List.reverseRecOn with
  | nil => rfl
  | append_singleton h e ih =>
    have hP : ¬ P h e := fun hP => hnone h e [] (.now hP)
    rw [hkeep h e hP]
    exact ih fun before d later hL => hnone before d _ (hL.passed hP)

end Last

def Event.Settles (p : Path) : Event → Prop
  | .load f => f.path.key = p.key
  | .remove path => path.key = p.key
  | .clear _ => True
  | _ => False

def Event.flag? (p : Path) : Event → Option Bool
  | .setEnabled path enabled => if path.key = p.key then some enabled else none
  | _ => none

def flagAfter (p : Path) (later : List Event) : Bool :=
  (later.filterMap (Event.flag? p)).getLast?.getD true

def Holds (h : List Event) (p : Path) (f : RangeFile) (enabled : Bool) : Prop :=
  ∃ before later, Last (fun _ => Event.Settles p) h before (.load f) later ∧ enabled = flagAfter p later

theorem flagAfter_snoc (p : Path) (later : List Event) (e : Event) :
    flagAfter p (later ++ [e]) = (e.flag? p).getD (flagAfter p later) := by
  rw [flagAfter, flagAfter, List.filterMap_append]
  cases h : e.flag? p <;> simp [h]

section Table

variable {h : List Event} {e : Event} {p : Path} {f : RangeFile} {enabled : Bool}

theorem holds_settled (hs : e.Settles p) : Holds (h ++ [e]) p f enabled ↔ e = .load f ∧ enabled = true := by
  constructor
  · rintro ⟨before, later, hL, rfl⟩
    rcases last_snoc.1 hL with ⟨-, -, rfl, rfl⟩ | ⟨hns, -⟩
    · exact ⟨rfl, rfl⟩
    · exact absurd hs hns
  · rintro ⟨rfl, rfl⟩
    exact ⟨h, [], .now hs, rfl⟩

theorem holds_unsettled (hs : ¬ e.Settles p) :
    Holds (h ++ [e]) p f enabled ↔ ∃ before, Holds h p f before ∧ enabled = (e.flag? p).getD before := by
  constructor
  · rintro ⟨before, later, hL, rfl⟩
    rcases last_snoc.1 hL with ⟨hs', -⟩ | ⟨-, later, rfl, hlast⟩
    · exact absurd hs' hs
    · exact ⟨_, ⟨before, later, hlast, rfl⟩, flagAfter_snoc p later e⟩
  · rintro ⟨_, ⟨before, later, hL, rfl⟩, rfl⟩
    exact ⟨before, later ++ [e], hL.passed hs, (flagAfter_snoc p later e).symm⟩

end Table

section Step

variable {n : Network} {p : Path}

theorem update_aggregate (n : Network) (p : Progress) :
    (n.update p).2.1.aggregate = n.aggregate.merged (Aggregate.merge n.aggregate.files.entries [] p).1 := by
  obtain ⟨q, -, hr⟩ := Aggregate.recompute_stage (Progress.Agrees.refl p) n.aggregate
  rw [update, hr, (Aggregate.merge_stage (Progress.Agrees.refl p) _ _).1, FileTable.size]
  cases (p.grant n.aggregate.files.entries.length).1 with
  | completed => rw [deliver_aggregate]
  | cancelled => rfl
  | panicked => rfl

theorem clear_aggregate (n : Network) (p : Progress) : (n.clear p).2.1.aggregate = .empty := by
  rw [clear, deliver_aggregate]
  rfl

theorem remove_answer (n : Network) (path : Path) : (n.remove path).1 = n.aggregate.files.contains path := by
  rw [remove, Aggregate.remove?]
  by_cases h : n.aggregate.files.contains path <;> simp [h]

theorem setEnabled_answer (n : Network) (path : Path) (enabled : Bool) :
    (n.setEnabled path enabled).1 = n.aggregate.files.contains path := by
  rw [setEnabled, Aggregate.setEnabled?]
  by_cases h : n.aggregate.files.contains path <;> simp [h]

theorem remove_aggregate (n : Network) (path : Path) :
    (n.remove path).2.aggregate = { n.aggregate with files := n.aggregate.files.erase path } := by
  rw [remove, Aggregate.remove?]
  cases h : n.aggregate.files.contains path with
  | true => rfl
  | false =>
    rw [FileTable.erase_absent h]
    rfl

theorem setEnabled_aggregate (n : Network) (path : Path) (enabled : Bool) :
    (n.setEnabled path enabled).2.aggregate =
      { n.aggregate with files := n.aggregate.files.setEnabled path enabled } := by
  rw [setEnabled, Aggregate.setEnabled?]
  cases h : n.aggregate.files.contains path with
  | true => rfl
  | false =>
    rw [FileTable.setEnabled_absent h]
    rfl

theorem update_files (n : Network) (p : Progress) : (n.update p).2.1.aggregate.files = n.aggregate.files := by
  rw [update_aggregate]
  cases (Aggregate.merge n.aggregate.files.entries [] p).1 with
  | completed => exact Aggregate.publish_files _ _
  | cancelled => rfl
  | panicked => rfl

theorem occur_settled {e : Event} (hs : e.Settles p) (n : Network) (f : RangeFile) (enabled : Bool) :
    (n.occur e).aggregate.files.content? p = some (f, enabled) ↔ e = .load f ∧ enabled = true := by
  cases e with
  | load g =>
    have hkey : g.path.key = p.key := hs
    have hcontent : (n.occur (.load g)).aggregate.files.content? p = some (g, true) := by
      rw [occur, load, Aggregate.load, FileTable.content?_load, if_pos hkey]
    rw [hcontent]
    simp [eq_comm]
  | remove path =>
    have hkey : path.key = p.key := hs
    have hcontent : (n.occur (.remove path)).aggregate.files.content? p = none := by
      rw [occur, remove_aggregate, FileTable.content?_erase, if_pos hkey]
    simp [hcontent]
  | clear q =>
    have hcontent : (n.occur (.clear q)).aggregate.files.content? p = none := by
      rw [occur, clear_aggregate]
      rfl
    simp [hcontent]
  | setEnabled path enabled => cases hs
  | update q => cases hs
  | regroup dependents targets => cases hs

theorem occur_unsettled {e : Event} (hs : ¬ e.Settles p) (n : Network) :
    (n.occur e).aggregate.files.content? p =
      (n.aggregate.files.content? p).map fun c => (c.1, (e.flag? p).getD c.2) := by
  cases e with
  | load g =>
    have hkey : ¬ g.path.key = p.key := hs
    rw [occur, load, Aggregate.load, FileTable.content?_load, if_neg hkey]
    simp [Event.flag?]
  | remove path =>
    have hkey : ¬ path.key = p.key := hs
    rw [occur, remove_aggregate, FileTable.content?_erase, if_neg hkey]
    simp [Event.flag?]
  | setEnabled path enabled =>
    rw [occur, setEnabled_aggregate, FileTable.content?_setEnabled]
    by_cases hkey : path.key = p.key <;> simp [Event.flag?, hkey]
  | update q =>
    rw [occur, update_files]
    simp [Event.flag?]
  | clear q => exact absurd trivial hs
  | regroup dependents targets => simp [occur, Event.flag?]

theorem occur_keyed (hn : n.aggregate.files.Keyed) (e : Event) : (n.occur e).aggregate.files.Keyed := by
  cases e with
  | load f => exact hn.load f
  | remove path =>
    rw [occur, remove_aggregate]
    exact hn.erase path
  | setEnabled path enabled =>
    rw [occur, setEnabled_aggregate]
    exact hn.setEnabled path enabled
  | update q =>
    rw [occur, update_files]
    exact hn
  | clear q =>
    rw [occur, clear_aggregate]
    intro e he
    cases he
  | regroup dependents targets => exact hn

end Step

theorem content_after (l : Listing) (h : List Event) (p : Path) (f : RangeFile) (enabled : Bool) :
    (after l h).aggregate.files.content? p = some (f, enabled) ↔ Holds h p f enabled := by
  induction h using List.reverseRecOn generalizing enabled with
  | nil =>
    have hcontent : (after l []).aggregate.files.content? p = none := rfl
    have hnone : ¬ Holds [] p f enabled := by
      rintro ⟨before, later, hL, -⟩
      have hsplit := hL.split
      simp at hsplit
    simp [hcontent, hnone]
  | append_singleton h e ih =>
    rw [after_snoc]
    by_cases hs : e.Settles p
    · rw [occur_settled hs, holds_settled hs]
    · rw [occur_unsettled hs, holds_unsettled hs]
      simp only [← ih]
      cases (after l h).aggregate.files.content? p with
      | none => simp
      | some c =>
        obtain ⟨g, flag⟩ := c
        constructor
        · intro hc
          cases hc
          exact ⟨flag, rfl, rfl⟩
        · rintro ⟨before, hc, rfl⟩
          cases hc
          rfl

theorem keyed_after (l : Listing) (h : List Event) : (after l h).aggregate.files.Keyed := by
  induction h using List.reverseRecOn with
  | nil =>
    intro e he
    cases he
  | append_singleton h e ih =>
    rw [after_snoc]
    exact occur_keyed ih e

structure Lists (h : List Event) (cs : List (RangeFile × Bool)) : Prop where
  ascending : cs.Pairwise fun c d => c.1.path < d.1.path
  mem : ∀ f enabled, (f, enabled) ∈ cs ↔ Holds h f.path f enabled

theorem lists_after (l : Listing) (h : List Event) : Lists h (after l h).aggregate.files.contents where
  ascending := (keyed_after l h).contents_ascending
  mem := fun f enabled => by rw [(keyed_after l h).mem_contents, content_after]

def Republishes (l : Listing) (before : List Event) : Event → Prop
  | .update p => (Aggregate.merge (after l before).aggregate.files.entries [] p).1 = .completed
  | .clear _ => True
  | _ => False

def Transitions (l : Listing) (before : List Event) (e : Event) : Prop :=
  (∃ f, e = .load f) ∨ Republishes l before e

def Fills (before : List Event) : Event → Prop
  | .load _ => True
  | .update _ => ∃ f enabled, Holds before f.path f enabled
  | _ => False

def offered (n : Network) : List AddressRange × Option (List AddressRange) :=
  (n.aggregate.union, n.aggregate.published)

section Published

variable {l : Listing} {h before later : List Event} {e : Event} {p : Progress}

theorem update_stopped {n : Network} (h : (Aggregate.merge n.aggregate.files.entries [] p).1 ≠ .completed) :
    (n.update p).2.1.aggregate = n.aggregate := by
  rw [update_aggregate]
  cases hm : (Aggregate.merge n.aggregate.files.entries [] p).1 with
  | completed => exact absurd hm h
  | cancelled => rfl
  | panicked => rfl

theorem update_whole {n : Network} (h : (Aggregate.merge n.aggregate.files.entries [] p).1 = .completed) :
    (n.update p).2.1.aggregate = n.aggregate.publish n.aggregate.files.union := by
  rw [update_aggregate, h, Aggregate.merged]

theorem offered_kept (l : Listing) (h : List Event) (e : Event) (hr : ¬ Republishes l h e) :
    (after l (h ++ [e])).offered = (after l h).offered := by
  rw [after_snoc, offered, offered]
  cases e with
  | load f => rfl
  | remove path => rw [occur, remove_aggregate]
  | setEnabled path enabled => rw [occur, setEnabled_aggregate]
  | update p => rw [occur, update_stopped hr]
  | clear p => exact absurd trivial hr
  | regroup dependents targets => rfl

theorem state_kept (l : Listing) (h : List Event) (e : Event) (ht : ¬ Transitions l h e) :
    (after l (h ++ [e])).aggregate.state = (after l h).aggregate.state := by
  rw [after_snoc]
  cases e with
  | load f => exact absurd (.inl ⟨f, rfl⟩) ht
  | remove path => rw [occur, remove_aggregate]
  | setEnabled path enabled => rw [occur, setEnabled_aggregate]
  | update p => rw [occur, update_stopped fun hr => ht (.inr hr)]
  | clear p => exact absurd (.inr trivial) ht
  | regroup dependents targets => rfl

theorem Lists.filled_iff {cs : List (RangeFile × Bool)} (hc : Lists h cs) :
    cs ≠ [] ↔ ∃ f enabled, Holds h f.path f enabled := by
  rw [ne_eq, List.eq_nil_iff_forall_not_mem]
  simp only [not_forall, not_not, Prod.exists, hc.mem]

theorem offered_merged (hL : Last (Republishes l) h before (.update p) later) :
    ∃ cs, Lists before cs ∧
      (after l h).aggregate.union = (cs.filter Prod.snd).flatMap (fun c => c.1.ranges.toList) ∧
      (after l h).aggregate.published = if cs.isEmpty then none else some (after l h).aggregate.union := by
  obtain ⟨hunion, hpublished⟩ := Prod.ext_iff.1 (hL.observed (offered_kept l))
  dsimp only [offered] at hunion hpublished
  rw [occur, update_whole hL.holds] at hunion hpublished
  rw [Aggregate.publish_union] at hunion
  rw [Aggregate.publish_published, ← hunion] at hpublished
  refine ⟨_, lists_after l before, hunion.trans (FileTable.union_eq _), ?_⟩
  rw [hpublished, FileTable.size, FileTable.contents]
  simp

theorem offered_unmerged (hnone : ∀ before p later, ¬ Last (Republishes l) h before (.update p) later) :
    (after l h).offered = ([], none) := by
  by_cases hlast : ∃ before e later, Last (Republishes l) h before e later
  · obtain ⟨before, e, later, hL⟩ := hlast
    rw [hL.observed (offered_kept l)]
    cases e with
    | update p => exact absurd hL (hnone before p later)
    | clear p => rw [occur, offered, clear_aggregate, Aggregate.empty]
    | load f => exact absurd hL.holds id
    | remove path => exact absurd hL.holds id
    | setEnabled path enabled => exact absurd hL.holds id
    | regroup dependents targets => exact absurd hL.holds id
  · exact observed_of_none (offered_kept l) fun before e later hL => hlast ⟨before, e, later, hL⟩

theorem publish_state (a : Aggregate) (union : List AddressRange) :
    (a.publish union).state = if a.files.contents = [] then .empty else .loaded := by
  rw [Aggregate.publish, FileTable.contents]
  by_cases he : a.files.entries = [] <;> simp [he]

theorem state_transition (ht : Transitions l h e) :
    (((after l h).occur e).aggregate.state = .loaded ↔ Fills h e) ∧
      (((after l h).occur e).aggregate.state = .loaded ∨ ((after l h).occur e).aggregate.state = .empty) := by
  rcases ht with ⟨f, rfl⟩ | hr
  · exact ⟨⟨fun _ => trivial, fun _ => rfl⟩, .inl rfl⟩
  · cases e with
    | update p =>
      rw [occur, update_whole hr, publish_state, Fills, ← (lists_after l h).filled_iff]
      by_cases he : (after l h).aggregate.files.contents = [] <;> simp [he]
    | clear p =>
      rw [occur, clear_aggregate]
      simp [Aggregate.empty, Fills]
    | load f => exact absurd hr id
    | remove path => exact absurd hr id
    | setEnabled path enabled => exact absurd hr id
    | regroup dependents targets => exact absurd hr id

theorem state_after (l : Listing) (h : List Event) :
    ((after l h).aggregate.state = .loaded ↔
      ∃ before e later, Last (Transitions l) h before e later ∧ Fills before e) ∧
    ((after l h).aggregate.state = .loaded ∨ (after l h).aggregate.state = .empty) := by
  have hobserved {before : List Event} {e : Event} {later : List Event} (hL : Last (Transitions l) h before e later) :
      (after l h).aggregate.state = ((after l before).occur e).aggregate.state :=
    hL.observed (v := fun n => n.aggregate.state) (state_kept l)
  by_cases hlast : ∃ before e later, Last (Transitions l) h before e later
  · obtain ⟨before, e, later, hL⟩ := hlast
    obtain ⟨hloaded, hstate⟩ := state_transition hL.holds
    rw [← hobserved hL] at hloaded hstate
    refine ⟨⟨fun hl => ⟨before, e, later, hL, hloaded.1 hl⟩, ?_⟩, hstate⟩
    rintro ⟨before', e', later', hL', hf⟩
    rw [hobserved hL']
    exact (state_transition hL'.holds).1.2 hf
  · have hempty : (after l h).aggregate.state = .empty :=
      observed_of_none (v := fun n => n.aggregate.state) (state_kept l)
        fun before e later hL => hlast ⟨before, e, later, hL⟩
    refine ⟨⟨fun hl => ?_, ?_⟩, .inr hempty⟩
    · rw [hempty] at hl
      cases hl
    · rintro ⟨before, e, later, hL, -⟩
      exact absurd ⟨before, e, later, hL⟩ hlast

end Published

structure Refines (l : Listing) (h : List Event) : Prop where
  found : ∀ p f enabled, (after l h).aggregate.files.content? p = some (f, enabled) ↔ Holds h p f enabled
  listed : ∃ cs, Lists h cs ∧ (after l h).aggregate.files.statuses = cs.map fun c => c.1.status c.2
  removes : ∀ path, ((after l h).remove path).1 = true ↔ ∃ f enabled, Holds h path f enabled
  enables : ∀ path flag, ((after l h).setEnabled path flag).1 = true ↔ ∃ f enabled, Holds h path f enabled
  merged : ∀ before p later, Last (Republishes l) h before (.update p) later →
    ∃ cs, Lists before cs ∧
      (after l h).aggregate.union = (cs.filter Prod.snd).flatMap (fun c => c.1.ranges.toList) ∧
      (after l h).aggregate.published = if cs.isEmpty then none else some (after l h).aggregate.union
  unmerged : (∀ before p later, ¬ Last (Republishes l) h before (.update p) later) →
    (after l h).aggregate.union = [] ∧ (after l h).aggregate.published = none
  loaded : (after l h).aggregate.state = .loaded ↔
    ∃ before e later, Last (Transitions l) h before e later ∧ Fills before e
  fresh : (after l h).aggregate.state = .loaded ∨ (after l h).aggregate.state = .empty

theorem after_refines (l : Listing) (h : List Event) : Refines l h where
  found := content_after l h
  listed := ⟨_, lists_after l h, FileTable.statuses_eq _⟩
  removes := by
    intro path
    simp only [remove_answer, FileTable.contains_iff, content_after]
  enables := by
    intro path flag
    simp only [setEnabled_answer, FileTable.contains_iff, content_after]
  merged := fun _ _ _ hL => offered_merged hL
  unmerged := by
    intro hnone
    exact Prod.ext_iff.1 (offered_unmerged hnone)
  loaded := (state_after l h).1
  fresh := (state_after l h).2

-- The one merge that runs to its end is published although its listener panics. What follows changes the table alone.
example :
    let file := RangeFile.ofRanges ⟨"a.cov"⟩ "" [⟨.zero, .zero, by decide⟩]
    let n := after ⟨fun _ => [], []⟩
      [.load file, .regroup [] [.observer ⟨"late", .panic⟩], .update .unbounded, .setEnabled ⟨"a.cov/"⟩ false,
        .update (.cancelAfter 0)]
    n.aggregate.files.statuses.map FileStatus.enabled = [false] ∧ n.aggregate.union = file.ranges.toList ∧
      n.aggregate.published = some file.ranges.toList ∧ n.aggregate.state = .loaded := by
  decide +kernel

end Network

end InstructionCoverage
