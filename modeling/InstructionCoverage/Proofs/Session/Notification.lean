import InstructionCoverage.Proofs.Session.History

namespace InstructionCoverage.Session

open Progress

def completed? {α : Type} : Ending × α → Option α
  | (.completed, r) => some r
  | _ => none

def aligned? (s : Session) (a : Aggregate) (p : Progress) : Option Progress :=
  (completed? (s.alignment.value.follow s.listing a.published p)).map Prod.snd

def merged? (disk : FileSystem) (op : Operation) (s : Session) (p : Progress) : Option (Aggregate × Progress) :=
  match plan disk op s p with
  | (.answer _, _) => none
  | (.merge a _, q) => completed? (a.recompute q)
  | (.clear a, q) => some (a, q)

def recomputed? (disk : FileSystem) (op : Operation) (s : Session) (p : Progress) : Option Progress :=
  (merged? disk op s p).bind fun r => s.aligned? r.1 r.2

def handleAfter (r : Ending × Session × Progress) : Option Progress :=
  (completed? r).map Prod.snd

theorem handleAfter_propagate (s : Session) (a : Aggregate) (p : Progress) :
    handleAfter (s.propagate a p) = s.aligned? a p := by
  rw [propagate, aligned?]
  cases s.alignment.value.follow s.listing a.published p with
  | mk ending r => cases ending <;> rfl

theorem handleAfter_recompute (s : Session) (a : Aggregate) (p : Progress) :
    handleAfter (s.recompute a p) = (completed? (a.recompute p)).bind fun r => s.aligned? r.1 r.2 := by
  rw [recompute]
  cases a.recompute p with
  | mk ending r =>
    obtain ⟨b, q⟩ := r
    cases ending with
    | completed => exact handleAfter_propagate s b q
    | cancelled => rfl
    | panicked => rfl

theorem reactions_cons_completed {u : Subscriber} {p : Progress} (h : (u.react p).1 = .completed)
    (us : List Subscriber) :
    reactions (u :: us) p = reactions us (u.react p).2 ∧ told (u :: us) p = u :: told us (u.react p).2 := by
  rw [reactions, told]
  cases hr : u.react p with
  | mk ending q =>
    rw [hr] at h
    cases h
    exact ⟨rfl, rfl⟩

theorem reactions_cons_stopped {u : Subscriber} {p : Progress} (h : (u.react p).1 ≠ .completed)
    (us : List Subscriber) : reactions (u :: us) p = u.react p ∧ told (u :: us) p = [u] := by
  rw [reactions, told]
  cases hr : u.react p with
  | mk ending q =>
    rw [hr] at h
    cases ending with
    | completed => exact absurd rfl h
    | cancelled => exact ⟨rfl, rfl⟩
    | panicked => exact ⟨rfl, rfl⟩

theorem told_prefix (us : List Subscriber) (p : Progress) :
    ∃ skipped, us = told us p ++ skipped ∧ (reactions (told us p).dropLast p).1 = .completed ∧
      (skipped ≠ [] → (reactions (told us p) p).1 ≠ .completed) := by
  induction us generalizing p with
  | nil => exact ⟨[], rfl, rfl, fun h => absurd rfl h⟩
  | cons u us ih =>
    by_cases h : (u.react p).1 = .completed
    · obtain ⟨skipped, hsplit, hbefore, hlast⟩ := ih (u.react p).2
      rw [(reactions_cons_completed h us).2]
      refine ⟨skipped, congrArg (u :: ·) hsplit, ?_, ?_⟩
      · cases ht : told us (u.react p).2 with
        | nil => rfl
        | cons v vs =>
          rw [ht] at hbefore
          rw [List.dropLast_cons_cons, (reactions_cons_completed h _).1]
          exact hbefore
      · intro hskipped
        rw [(reactions_cons_completed h _).1]
        exact hlast hskipped
    · rw [(reactions_cons_stopped h us).2]
      refine ⟨us, rfl, rfl, fun _ => ?_⟩
      rw [(reactions_cons_stopped h []).1]
      exact h

theorem publicize_busied {r : Ending × Session × Progress} {q : Progress} (h : handleAfter r = some q) :
    (publicize (r.1, r.2.1.busied, r.2.2)).2 =
      (told r.2.1.subscribers q).map (Subscriber.notice r.2.1.busied.view) := by
  obtain ⟨ending, s, p⟩ := r
  cases ending with
  | completed =>
    cases h
    rfl
  | cancelled => cases h
  | panicked => cases h

theorem publicize_none {r : Ending × Session × Progress} (h : handleAfter r = none) :
    (publicize (r.1, r.2.1.busied, r.2.2)).2 = [] := by
  obtain ⟨ending, s, p⟩ := r
  cases ending with
  | completed => cases h
  | cancelled => rfl
  | panicked => rfl

structure SameReadings (v : View) (s : Session) : Prop where
  files : v.files = s.files
  raw : v.raw = s.rawRanges
  hits : v.hits = s.hits
  states : v.states = s.states

def Tells (us : List Subscriber) (after? : Option Progress) (r : Run) : Prop :=
  match after? with
  | none => r.notices = []
  | some q => ∃ v, r.notices = (told us q).map (Subscriber.notice v) ∧ SameReadings v r.session

theorem tells_concluded {run : Run} {r : Ending × Session × Progress} {us : List Subscriber}
    (hus : r.2.1.subscribers = us) (hsession : run.session = r.2.1.released)
    (hnotices : run.notices = (publicize (r.1, r.2.1.busied, r.2.2)).2) : Tells us (handleAfter r) run := by
  cases h : handleAfter r with
  | none => exact hnotices.trans (publicize_none h)
  | some q =>
    refine ⟨r.2.1.busied.view, ?_, ?_⟩
    · rw [hnotices, publicize_busied h, hus]
    · rw [hsession]
      exact ⟨rfl, rfl, rfl, rfl⟩

theorem run_tells {s : Session} (h : s.Idle) (disk : FileSystem) (op : Operation) (p : Progress) :
    Tells s.subscribers (s.recomputed? disk op p) (s.run disk op p) := by
  rw [recomputed?, merged?]
  cases hp : plan disk op s p with
  | mk pl q =>
    cases pl with
    | answer a => exact (run_answer h hp).2.2
    | merge a answer =>
      obtain ⟨-, hsession, hnotices⟩ := merge_concluded h hp
      rw [recompute_busied] at hnotices
      dsimp only
      rw [← handleAfter_recompute]
      exact tells_concluded (setup_recompute s a q).subscribers hsession hnotices
    | clear a =>
      obtain ⟨-, hsession, hnotices⟩ := clear_concluded h hp
      rw [propagate_busied] at hnotices
      dsimp only
      rw [Option.bind_some, ← handleAfter_propagate]
      exact tells_concluded (setup_propagate s a q).subscribers hsession hnotices

theorem run_unflagged {l : Listing} {s : Session} (h : Sound l s) (disk : FileSystem) (op : Operation) (p : Progress) :
    (s.run disk op p).session.changed = false :=
  (h.run disk op p).idle.changed

/-- Subscribers are told, in order and up to the first that does not complete, when both models were recomputed to
the end, and what they read is what can be read afterwards. Otherwise nobody is told, and no change is left for a
later operation to tell of. -/
theorem notices_exact {l : Listing} {s : Session} (h : Reachable l s) (disk : FileSystem) (op : Operation)
    (p : Progress) :
    let r := s.run disk op p
    (∀ q, s.recomputed? disk op p = some q → ∃ called skipped v,
      s.subscribers = called ++ skipped ∧ (reactions called.dropLast q).1 = .completed ∧
      (skipped ≠ [] → (reactions called q).1 ≠ .completed) ∧
      r.notices = called.map (Subscriber.notice v) ∧ SameReadings v r.session) ∧
    (s.recomputed? disk op p = none → r.notices = []) ∧
    (∀ t : Session, t.busy = true → (t.run disk op p).notices = [] ∧ (t.run disk op p).session = t) ∧
    r.session.changed = false := by
  intro r
  have htells := run_tells h.sound.idle disk op p
  refine ⟨?_, ?_, ?_, run_unflagged h.sound disk op p⟩
  · intro q hq
    rw [hq] at htells
    obtain ⟨v, hnotices, hreadings⟩ := htells
    obtain ⟨skipped, hsplit, hbefore, hlast⟩ := told_prefix s.subscribers q
    exact ⟨told s.subscribers q, skipped, v, hsplit, hbefore, hlast, hnotices, hreadings⟩
  · intro hnone
    rw [hnone] at htells
    exact htells
  · intro t ht
    rw [run_busy ht]
    exact ⟨rfl, rfl⟩

def crowdedSession : Session :=
  (((ofListing smallListing).subscribe ⟨"first", [.refresh], .accept⟩).subscribe ⟨"second", [], .cancel⟩).subscribe
    ⟨"third", [], .accept⟩

def crowdedImport (polls : Nat) : Run :=
  crowdedSession.run smallDisk (.importFiles [⟨"a.cov"⟩]) (.cancelAfter polls)

theorem notices_exact_crowded :
    Reachable smallListing crowdedSession ∧ (crowdedImport 4).notices.map Notice.name = ["first", "second"] ∧
      (∀ n ∈ (crowdedImport 4).notices, SameReadings n.view (crowdedImport 4).session) ∧
      (crowdedImport 4).session.changed = false ∧ (crowdedImport 3).notices = [] := by
  have h : Reachable smallListing crowdedSession :=
    ⟨none, ((History.start.subscribe _).subscribe _).subscribe _⟩
  obtain ⟨hdone, -, -, hchanged⟩ := notices_exact h smallDisk (.importFiles [⟨"a.cov"⟩]) (.cancelAfter 4)
  obtain ⟨-, hcut, -, -⟩ := notices_exact h smallDisk (.importFiles [⟨"a.cov"⟩]) (.cancelAfter 3)
  refine ⟨h, by decide +kernel, ?_, hchanged, hcut (Option.isNone_iff_eq_none.1 (by decide +kernel))⟩
  obtain ⟨q, hq⟩ := Option.isSome_iff_exists.1
    (show (crowdedSession.recomputed? smallDisk (.importFiles [⟨"a.cov"⟩]) (.cancelAfter 4)).isSome by decide +kernel)
  obtain ⟨called, skipped, v, -, -, -, hnotices, hreadings⟩ := hdone q hq
  intro n hn
  rw [crowdedImport, hnotices] at hn
  obtain ⟨u, -, rfl⟩ := List.mem_map.1 hn
  exact hreadings

end InstructionCoverage.Session
