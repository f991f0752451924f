import InstructionCoverage.Proofs.Session.Notification

/-!
One operation at a time. An operation is taken apart into steps between which others may make requests; the session is
busy from the first step to the last notification, so every such request is refused and the operation goes on as if
it had not been made.
-/

namespace InstructionCoverage

inductive Phase where
  | begun (op : Operation) (p : Progress)
  | planned (plan : Session.Plan) (p : Progress)
  | recomputed (answer : Outcome → Answer) (ending : Ending) (p : Progress)
  | notifying (answer : Outcome → Answer) (ending : Outcome) (us : List Subscriber) (p : Progress)
      (notices : List Notice)
  | ended (answer : Answer) (p : Progress) (notices : List Notice)

structure Course where
  phase : Phase
  session : Session

namespace Course

open Session

def publishing (answer : Outcome → Answer) (ending : Outcome) (p : Progress) (s : Session) : Course :=
  if s.changed then ⟨.notifying answer ending s.subscribers p [], { s with changed := false }⟩
  else ⟨.ended (answer ending) p [], s⟩

def advance (disk : FileSystem) (c : Course) : Course :=
  let s := c.session
  match c.phase with
  | .begun op p => ⟨.planned (plan disk op s p).1 (plan disk op s p).2, s⟩
  | .planned (.answer a) p => ⟨.ended a p [], s⟩
  | .planned (.merge a answer) p =>
    let (ending, s, p) := s.recompute a p
    ⟨.recomputed answer ending p, s⟩
  | .planned (.clear a) p =>
    let (ending, s, p) := s.propagate a p
    ⟨.recomputed .outcome ending p, s⟩
  | .recomputed answer .completed p => publishing answer .completed p s
  | .recomputed answer .cancelled p => publishing answer .cancelled p s
  | .recomputed _ .panicked p => ⟨.ended .panicked p [], s⟩
  | .notifying answer ending [] p notices => ⟨.ended (answer ending) p notices, s⟩
  | .notifying answer ending (u :: us) p notices =>
    let (t, answers) := ask (inner disk) u.requests s []
    let notices := notices ++ [⟨u.name, s.view, answers⟩]
    match u.react p with
    | (.completed, p) => ⟨.notifying answer ending us p notices, t⟩
    | (.cancelled, p) => ⟨.ended (answer .cancelled) p notices, t⟩
    | (.panicked, p) => ⟨.ended .panicked p notices, t⟩
  | .ended a p notices => ⟨.ended a p notices, s⟩

def after (disk : FileSystem) : Nat → Course → Course
  | 0, c => c
  | k + 1, c => after disk k (c.advance disk)

def Ends (disk : FileSystem) (c : Course) (r : Run) : Prop :=
  ∃ k, after disk k c = ⟨.ended r.answer r.progress r.notices, r.session⟩

theorem Ends.of_advance {disk : FileSystem} {c : Course} {r : Run} (h : Ends disk (c.advance disk) r) :
    Ends disk c r := by
  obtain ⟨k, h⟩ := h
  exact ⟨k + 1, h⟩

theorem ends_ended (disk : FileSystem) (r : Run) : Ends disk ⟨.ended r.answer r.progress r.notices, r.session⟩ r :=
  ⟨0, rfl⟩

theorem ends_notifying (disk : FileSystem) (answer : Outcome → Answer) (ending : Outcome) (us : List Subscriber)
    (s : Session) (p : Progress) (notices : List Notice) :
    Ends disk ⟨.notifying answer ending us p notices, s⟩
      (match notify (inner disk) us s p notices with
        | (.completed, s, p, notices) => ⟨answer ending, s, p, notices⟩
        | (.cancelled, s, p, notices) => ⟨answer .cancelled, s, p, notices⟩
        | (.panicked, s, p, notices) => ⟨.panicked, s, p, notices⟩) := by
  induction us generalizing s p notices with
  | nil => exact .of_advance (ends_ended disk ⟨answer ending, s, p, notices⟩)
  | cons u us ih =>
    apply Ends.of_advance
    rw [notify, advance]
    dsimp only
    cases u.react p with
    | mk reaction q =>
      cases reaction with
      | completed => exact ih _ q _
      | cancelled => exact ends_ended disk ⟨answer .cancelled, _, q, _⟩
      | panicked => exact ends_ended disk ⟨.panicked, _, q, _⟩

theorem ends_publishing (disk : FileSystem) (answer : Outcome → Answer) (ending : Outcome) (s : Session)
    (p : Progress) : Ends disk (publishing answer ending p s) (publish (inner disk) answer ending s p) := by
  rw [publishing, publish]
  split
  · exact ends_notifying disk answer ending s.subscribers _ p []
  · exact ends_ended disk ⟨answer ending, s, p, []⟩

theorem ends_recomputed (disk : FileSystem) (answer : Outcome → Answer) (r : Ending × Session × Progress) :
    Ends disk ⟨.recomputed answer r.1 r.2.2, r.2.1⟩ (conclude (inner disk) answer r) := by
  obtain ⟨ending, s, p⟩ := r
  cases ending with
  | completed => exact .of_advance (ends_publishing disk answer .completed s p)
  | cancelled => exact .of_advance (ends_publishing disk answer .cancelled s p)
  | panicked => exact .of_advance (ends_ended disk ⟨.panicked, s, p, []⟩)

theorem ends_planned (disk : FileSystem) (pl : Plan) (s : Session) (p : Progress) :
    Ends disk ⟨.planned pl p, s⟩ (execute (inner disk) s pl p) := by
  cases pl with
  | answer a => exact .of_advance (ends_ended disk ⟨a, s, p, []⟩)
  | merge a answer => exact .of_advance (ends_recomputed disk answer (s.recompute a p))
  | clear a => exact .of_advance (ends_recomputed disk .outcome (s.propagate a p))

theorem ends_begun (disk : FileSystem) (op : Operation) (s : Session) (p : Progress) :
    Ends disk ⟨.begun op p, s⟩ (execute (inner disk) s (plan disk op s p).1 (plan disk op s p).2) :=
  .of_advance (ends_planned disk _ s _)

theorem publishing_busy (answer : Outcome → Answer) (ending : Outcome) (p : Progress) (s : Session) :
    (publishing answer ending p s).session.busy = s.busy := by
  rw [publishing]
  split <;> rfl

theorem advance_busy {disk : FileSystem} {c : Course} (h : c.session.busy = true) :
    (c.advance disk).session.busy = true := by
  obtain ⟨phase, s⟩ := c
  cases phase with
  | begun op p => exact h
  | planned pl p =>
    cases pl with
    | answer a => exact h
    | merge a answer => exact (recompute_busy s a p).trans h
    | clear a => exact (propagate_busy s a p).trans h
  | recomputed answer ending p =>
    cases ending with
    | completed => exact (publishing_busy answer .completed p s).trans h
    | cancelled => exact (publishing_busy answer .cancelled p s).trans h
    | panicked => exact h
  | notifying answer ending us p notices =>
    cases us with
    | nil => exact h
    | cons u us =>
      rw [advance]
      dsimp only
      rw [ask_busy h]
      cases u.react p with
      | mk reaction q => cases reaction <;> exact h
  | ended a p notices => exact h

theorem after_busy {disk : FileSystem} (k : Nat) {c : Course} (h : c.session.busy = true) :
    (after disk k c).session.busy = true := by
  induction k generalizing c with
  | zero => exact h
  | succ k ih => exact ih (advance_busy h)

inductive Event where
  | step
  | request (disk : FileSystem) (op : Operation) (p : Progress)

def Event.isStep : Event → Bool
  | .step => true
  | .request _ _ _ => false

def play (disk : FileSystem) : List Event → Course → Course × List Answer
  | [], c => (c, [])
  | .step :: es, c => play disk es (c.advance disk)
  | .request disk' op p :: es, c =>
    let r := c.session.run disk' op p
    let (d, answers) := play disk es { c with session := r.session }
    (d, r.answer :: answers)

theorem play_busy {disk : FileSystem} (es : List Event) {c : Course} (h : c.session.busy = true) :
    play disk es c =
      (after disk (es.countP Event.isStep) c, (es.filter fun e => !e.isStep).map fun _ => .refused .busy) := by
  induction es generalizing c with
  | nil => rfl
  | cons e es ih =>
    cases e with
    | step =>
      rw [play, ih (advance_busy h), List.countP_cons_of_pos rfl]
      rfl
    | request disk' op p =>
      rw [play, run_busy h, List.countP_cons_of_neg Bool.false_ne_true]
      dsimp only
      rw [ih h]
      rfl

def ofRequest (op : Operation) (s : Session) (p : Progress) : Course :=
  ⟨.begun op p, s.busied⟩

theorem busied_released {s t : Session} (hs : s = { t with busy := false }) (ht : t.busy = true) : s.busied = t := by
  rw [hs, busied, ← ht]

theorem ends_run {s : Session} (h : s.Idle) (disk : FileSystem) (op : Operation) (p : Progress) :
    ∃ k q, after disk k (ofRequest op s p) =
        ⟨.ended (s.run disk op p).answer q (s.run disk op p).notices, (s.run disk op p).session.busied⟩ ∧
      (s.run disk op p).progress = handleLeft op p q := by
  obtain ⟨k, hk⟩ := ends_begun disk op s.busied p
  have hbusy : (after disk k ⟨.begun op p, s.busied⟩).session.busy = true := after_busy k rfl
  rw [hk, plan_busied] at hbusy
  rw [plan_busied] at hk
  rw [run_performed h]
  refine ⟨k, _, ?_, rfl⟩
  -- The run gives back the session of the course with the flag cleared; setting the flag again restores it.
  rw [ofRequest, hk, busied_released rfl hbusy]

end Course

def Subscriber.silent (u : Subscriber) : Subscriber :=
  { u with requests := [] }

def Notice.reading (n : Notice) : String × View :=
  (n.name, n.view)

namespace Session

structure Alike (us : List Subscriber) (r r' : Run) : Prop where
  answer : r'.answer = r.answer
  progress : r'.progress = r.progress
  session : r'.session = { r.session with subscribers := us }
  notices : r'.notices.map Notice.reading = r.notices.map Notice.reading

theorem Alike.view {us : List Subscriber} {r r' : Run} (h : Alike us r r') : r'.session.view = r.session.view := by
  rw [h.session]
  rfl

theorem reactions_silent (us : List Subscriber) (p : Progress) :
    reactions (us.map Subscriber.silent) p = reactions us p ∧
      told (us.map Subscriber.silent) p = (told us p).map Subscriber.silent := by
  induction us generalizing p with
  | nil => exact ⟨rfl, rfl⟩
  | cons u us ih =>
    rw [List.map_cons, reactions, reactions, told, told, Subscriber.silent]
    dsimp only
    cases u.react p with
    | mk ending q =>
      cases ending with
      | completed => exact ⟨(ih q).1, congrArg (u.silent :: ·) (ih q).2⟩
      | cancelled => exact ⟨rfl, rfl⟩
      | panicked => exact ⟨rfl, rfl⟩

theorem reading_notice (v : View) (us : List Subscriber) :
    (us.map (Subscriber.notice v)).map Notice.reading =
      ((us.map Subscriber.silent).map (Subscriber.notice v)).map Notice.reading := by
  simp only [List.map_map]
  rfl

section Silent

variable {us : List Subscriber} {s : Session} (h : us.map Subscriber.silent = s.subscribers.map Subscriber.silent)
include h

theorem reactions_alike (p : Progress) : reactions us p = reactions s.subscribers p := by
  rw [← (reactions_silent us p).1, h, (reactions_silent s.subscribers p).1]

theorem readings_alike (v : View) (p : Progress) :
    ((told us p).map (Subscriber.notice v)).map Notice.reading =
      ((told s.subscribers p).map (Subscriber.notice v)).map Notice.reading := by
  rw [reading_notice, ← (reactions_silent us p).2, h, (reactions_silent s.subscribers p).2, ← reading_notice]

theorem conclude_alike (disk : FileSystem) (answer : Outcome → Answer) {ending : Ending} {p : Progress}
    (hr : Flagged (ending, s, p)) :
    Alike us (conclude (inner disk) answer (ending, s, p))
      (conclude (inner disk) answer (ending, { s with subscribers := us }, p)) := by
  have hr' : Flagged (ending, { s with subscribers := us }, p) := ⟨hr.busy, hr.changed⟩
  rw [conclude_flagged disk answer hr, conclude_flagged disk answer hr']
  cases ending with
  | completed =>
    refine ⟨?_, ?_, rfl, readings_alike h s.view p⟩
    · dsimp only [settle]
      rw [reactions_alike h]
    · dsimp only [publicize]
      rw [reactions_alike h]
  | cancelled => exact ⟨rfl, rfl, rfl, rfl⟩
  | panicked => exact ⟨rfl, rfl, rfl, rfl⟩

theorem execute_alike (disk : FileSystem) (hb : s.busy = true) (hc : s.changed = false) (pl : Plan) (p : Progress) :
    Alike us (execute (inner disk) s pl p) (execute (inner disk) (s.framed s.busy us) pl p) := by
  cases pl with
  | answer a => exact ⟨rfl, rfl, rfl, rfl⟩
  | merge a answer =>
    have hus : us.map Subscriber.silent = (s.recompute a p).2.1.subscribers.map Subscriber.silent := by
      rw [(setup_recompute _ _ _).subscribers, h]
    rw [execute, execute, recompute_framed, ← recompute_busy s a p]
    exact conclude_alike hus disk answer (flagged_recompute hb hc a p)
  | clear a =>
    have hus : us.map Subscriber.silent = (s.propagate a p).2.1.subscribers.map Subscriber.silent := by
      rw [(setup_propagate _ _ _).subscribers, h]
    rw [execute, execute, propagate_framed, ← propagate_busy s a p]
    exact conclude_alike hus disk .outcome (flagged_propagate hb hc a p)

theorem run_alike (hs : s.Idle) (disk : FileSystem) (op : Operation) (p : Progress) :
    Alike us (s.run disk op p) ({ s with subscribers := us }.run disk op p) := by
  have hidle : Idle { s with subscribers := us } := ⟨hs.busy, hs.changed⟩
  have hplan : plan disk op { s with subscribers := us } p = plan disk op s p := by cases op <;> rfl
  have halike := execute_alike (s := s.busied) h disk rfl hs.changed (plan disk op s p).1 (plan disk op s p).2
  rw [run_performed hs, run_performed hidle, hplan]
  exact ⟨halike.answer, congrArg (handleLeft op p) halike.progress,
    congrArg (fun t : Session => { t with busy := false }) halike.session, halike.notices⟩

end Silent

structure Refused (u : Subscriber) (n : Notice) : Prop where
  busy : n.view.busy = true
  notice : n = u.notice n.view

theorem mem_told {us : List Subscriber} {p : Progress} {u : Subscriber} (h : u ∈ told us p) : u ∈ us := by
  obtain ⟨skipped, hsplit, -, -⟩ := told_prefix us p
  rw [hsplit]
  exact List.mem_append_left skipped h

theorem publicize_refused {r : Ending × Session × Progress} (hb : r.2.1.busy = true) {n : Notice}
    (h : n ∈ (publicize r).2) : ∃ u ∈ r.2.1.subscribers, Refused u n := by
  obtain ⟨ending, s, p⟩ := r
  cases ending with
  | completed =>
    obtain ⟨u, hu, rfl⟩ := List.mem_map.1 h
    exact ⟨u, mem_told hu, hb, rfl⟩
  | cancelled => cases h
  | panicked => cases h

theorem notices_refused {s : Session} (h : s.Idle) (disk : FileSystem) (op : Operation) (p : Progress) {n : Notice}
    (hn : n ∈ (s.run disk op p).notices) : ∃ u ∈ s.subscribers, Refused u n := by
  cases hp : plan disk op s p with
  | mk pl q =>
    cases pl with
    | answer a =>
      rw [(run_answer h hp).2.2] at hn
      cases hn
    | merge a answer =>
      rw [(merge_concluded h hp).2.2] at hn
      have hrefused := publicize_refused (recompute_busy s.busied a q) hn
      rwa [(setup_recompute _ _ _).subscribers] at hrefused
    | clear a =>
      rw [(clear_concluded h hp).2.2] at hn
      have hrefused := publicize_refused (propagate_busy s.busied a q) hn
      rwa [(setup_propagate _ _ _).subscribers] at hrefused

open Course

/-- A session that rests is free, and so it is after any operation. From its first step to the return of its last
notification the operation keeps the session busy: whatever is requested meanwhile, by subscribers or by others, is
refused, and the operation takes the steps, gives the answer and leaves the models that it would have without. -/
theorem run_exclusive {l : Listing} {s : Session} (h : Reachable l s) (disk : FileSystem) (op : Operation)
    (p : Progress) :
    let r := s.run disk op p
    (s.busy = false ∧ r.session.busy = false) ∧
    (∀ t : Session, t.busy = true → ∀ disk' op' p', t.run disk' op' p' = ⟨.refused .busy, t, p', []⟩) ∧
    (∃ k q, after disk k (ofRequest op s p) = ⟨.ended r.answer q r.notices, r.session.busied⟩ ∧
      r.progress = handleLeft op p q) ∧
    (∀ k, (after disk k (ofRequest op s p)).session.busy = true) ∧
    (∀ es, play disk es (ofRequest op s p) =
      (after disk (es.countP Event.isStep) (ofRequest op s p),
        (es.filter fun e => !e.isStep).map fun _ => .refused .busy)) ∧
    (∀ n ∈ r.notices, ∃ u ∈ s.subscribers, Refused u n) ∧
    (∀ us : List Subscriber, us.map Subscriber.silent = s.subscribers.map Subscriber.silent →
      let r' := { s with subscribers := us }.run disk op p
      Alike us r r' ∧ r'.session.view = r.session.view) := by
  intro r
  have hidle := h.sound.idle
  refine ⟨⟨hidle.busy, (h.sound.run disk op p).idle.busy⟩, fun t ht => run_busy ht, ends_run hidle disk op p,
    fun k => after_busy k rfl, fun es => play_busy es rfl, fun n hn => notices_refused hidle disk op p hn, ?_⟩
  intro us hus
  have halike := run_alike hus hidle disk op p
  exact ⟨halike, halike.view⟩

def restless : Subscriber :=
  ⟨"restless", [.importFiles [⟨"a.cov"⟩], .spawnImport [] .fresh, .refresh, .clear, .remove ⟨"a.cov"⟩,
    .setEnabled ⟨"a.cov"⟩ false], .panic⟩

def restlessImport (us : List Subscriber) : Run :=
  { (ofListing smallListing).subscribe restless with subscribers := us }.run smallDisk (.importFiles [⟨"a.cov"⟩])
    .unbounded

theorem run_exclusive_restless :
    Reachable smallListing ((ofListing smallListing).subscribe restless) ∧
      (restlessImport [restless]).answer = .panicked ∧ (restlessImport [restless]).session.busy = false ∧
      (restlessImport [restless]).notices.map Notice.answers = [.replicate 6 (.refused .busy)] ∧
      Alike [restless.silent] (restlessImport [restless]) (restlessImport [restless.silent]) := by
  have h : Reachable smallListing ((ofListing smallListing).subscribe restless) := ⟨none, .subscribe _ .start⟩
  obtain ⟨⟨-, hfree⟩, -, -, -, -, -, halike⟩ := run_exclusive h smallDisk (.importFiles [⟨"a.cov"⟩]) .unbounded
  exact ⟨h, by decide +kernel, hfree, by decide +kernel, (halike [restless.silent] rfl).1⟩

end Session

end InstructionCoverage
