import InstructionCoverage.Proofs.Model.Recompute
import InstructionCoverage.Session

namespace InstructionCoverage

def Subscriber.notice (v : View) (u : Subscriber) : Notice :=
  ⟨u.name, v, u.requests.map fun _ => .refused .busy⟩

namespace Session

open Progress

def reactions : List Subscriber → Progress → Ending × Progress
  | [], p => (.completed, p)
  | u :: us, p =>
    match u.react p with
    | (.completed, p) => reactions us p
    | stop => stop

def told : List Subscriber → Progress → List Subscriber
  | [], _ => []
  | u :: us, p =>
    u ::
      match u.react p with
      | (.completed, p) => told us p
      | _ => []

def inner (disk : FileSystem) (op : Operation) (s : Session) : Run :=
  perform decline disk op s .unbounded

theorem run_eq (disk : FileSystem) (op : Operation) (s : Session) (p : Progress) :
    s.run disk op p = perform (inner disk) disk op s p := rfl

section Busy

variable {s : Session} (h : s.busy = true)
include h

theorem perform_busy (nested : Operation → Session → Run) (disk : FileSystem) (op : Operation) (p : Progress) :
    perform nested disk op s p = ⟨.refused .busy, s, p, []⟩ := by
  rw [perform, if_pos h]

theorem run_busy (disk : FileSystem) (op : Operation) (p : Progress) :
    s.run disk op p = ⟨.refused .busy, s, p, []⟩ :=
  perform_busy h _ disk op p

theorem ask_busy (disk : FileSystem) (ops : List Operation) (answers : List Answer) :
    ask (inner disk) ops s answers = (s, answers ++ ops.map fun _ => .refused .busy) := by
  induction ops generalizing answers with
  | nil => simp [ask]
  | cons op ops ih =>
    rw [ask, inner, perform_busy h]
    dsimp only
    rw [ih, List.append_assoc]
    rfl

theorem notify_busy (disk : FileSystem) (us : List Subscriber) (p : Progress) (notices : List Notice) :
    notify (inner disk) us s p notices =
      ((reactions us p).1, s, (reactions us p).2, notices ++ (told us p).map (Subscriber.notice s.view)) := by
  induction us generalizing p notices with
  | nil => simp [notify, reactions, told]
  | cons u us ih =>
    rw [notify, reactions, told, ask_busy h]
    dsimp only [List.nil_append]
    cases u.react p with
    | mk ending q =>
      cases ending with
      | completed =>
        dsimp only
        rw [ih, List.append_assoc]
        rfl
      | cancelled => rfl
      | panicked => rfl

end Busy

def settle (answer : Outcome → Answer) : Ending × Session × Progress → Answer
  | (.panicked, _, _) => .panicked
  | (.cancelled, _, _) => answer .cancelled
  | (.completed, s, p) =>
    match (reactions s.subscribers p).1 with
    | .completed => answer .completed
    | .cancelled => answer .cancelled
    | .panicked => .panicked

def publicize : Ending × Session × Progress → Progress × List Notice
  | (.completed, s, p) => ((reactions s.subscribers p).2, (told s.subscribers p).map (Subscriber.notice s.view))
  | (_, _, p) => (p, [])

structure Flagged (r : Ending × Session × Progress) : Prop where
  busy : r.2.1.busy = true
  changed : r.2.1.changed = (r.1 == .completed)

theorem conclude_flagged (disk : FileSystem) (answer : Outcome → Answer) {r : Ending × Session × Progress}
    (h : Flagged r) :
    conclude (inner disk) answer r =
      ⟨settle answer r, { r.2.1 with changed := false }, (publicize r).1, (publicize r).2⟩ := by
  obtain ⟨ending, s, p⟩ := r
  obtain ⟨hbusy, hchanged⟩ := h
  dsimp only at hbusy hchanged
  cases ending with
  | completed =>
    have hc : s.changed = true := hchanged
    have hbusy' : { s with changed := false }.busy = true := hbusy
    rw [conclude, publish, if_pos hc, settle, notify_busy hbusy', publicize]
    cases (reactions s.subscribers p).1 <;> rfl
  | cancelled =>
    have hc : s.changed = false := hchanged
    rw [conclude, publish, if_neg (by rw [hc]; decide), ← hc]
    rfl
  | panicked =>
    have hc : s.changed = false := hchanged
    rw [conclude, ← hc]
    rfl

theorem propagate_stage (s : Session) (a : Aggregate) (p : Progress) :
    s.propagate a p =
      let g := p.grant (Alignment.distance a.published)
      (g.1,
        { s with
          aggregate := ⟨a, s.aggregate.poisoned || g.1 == .panicked⟩
          alignment := ⟨s.alignment.value.followed s.listing a.published g.1, s.alignment.poisoned || g.1 == .panicked⟩
          changed := s.changed || g.1 == .completed },
        g.2) := by
  rw [propagate, Alignment.follow_stage]
  dsimp only
  cases (p.grant (Alignment.distance a.published)).1 <;> simp

theorem recompute_stage {p q : Progress} (h : p.Agrees q) (s : Session) (a : Aggregate) :
    ∃ p', p'.Agrees (q.grant a.files.size).2 ∧
      s.recompute a p =
        if (q.grant a.files.size).1 = .completed then s.propagate (a.publish a.files.union) p'
        else ((q.grant a.files.size).1,
          { s with aggregate := ⟨a, s.aggregate.poisoned || (q.grant a.files.size).1 == .panicked⟩ }, p') := by
  obtain ⟨p', hp', hr⟩ := Aggregate.recompute_stage h a
  refine ⟨p', hp', ?_⟩
  rw [recompute, hr]
  cases (q.grant a.files.size).1 <;> simp [Aggregate.merged]

theorem flagged_propagate {s : Session} (hb : s.busy = true) (hc : s.changed = false) (a : Aggregate) (p : Progress) :
    Flagged (s.propagate a p) := by
  rw [propagate_stage]
  exact ⟨hb, by simp [hc]⟩

theorem flagged_recompute {s : Session} (hb : s.busy = true) (hc : s.changed = false) (a : Aggregate) (p : Progress) :
    Flagged (s.recompute a p) := by
  obtain ⟨p', -, hr⟩ := recompute_stage (Agrees.refl p) s a
  rw [hr]
  split
  · exact flagged_propagate hb hc _ _
  · rename_i hg
    exact ⟨hb, by simp [hc, hg]⟩

structure Idle (s : Session) : Prop where
  busy : s.busy = false
  changed : s.changed = false

def busied (s : Session) : Session :=
  { s with busy := true }

def released (s : Session) : Session :=
  { s with busy := false, changed := false }

def framed (s : Session) (busy : Bool) (us : List Subscriber) : Session :=
  { s with busy := busy, subscribers := us }

theorem propagate_framed (s : Session) (busy : Bool) (us : List Subscriber) (a : Aggregate) (p : Progress) :
    (s.framed busy us).propagate a p =
      ((s.propagate a p).1, (s.propagate a p).2.1.framed busy us, (s.propagate a p).2.2) := by
  rw [propagate_stage, propagate_stage]
  rfl

theorem recompute_framed (s : Session) (busy : Bool) (us : List Subscriber) (a : Aggregate) (p : Progress) :
    (s.framed busy us).recompute a p =
      ((s.recompute a p).1, (s.recompute a p).2.1.framed busy us, (s.recompute a p).2.2) := by
  rw [recompute, recompute]
  cases a.recompute p with
  | mk ending r =>
    obtain ⟨b, q⟩ := r
    cases ending with
    | completed => exact propagate_framed s busy us b q
    | cancelled => rfl
    | panicked => rfl

structure SameSetup (s t : Session) : Prop where
  listing : t.listing = s.listing
  decoder : t.decoder = s.decoder
  subscribers : t.subscribers = s.subscribers

theorem SameSetup.refl (s : Session) : SameSetup s s :=
  ⟨rfl, rfl, rfl⟩

theorem SameSetup.trans {s t u : Session} (h : SameSetup s t) (h' : SameSetup t u) : SameSetup s u :=
  ⟨h'.listing.trans h.listing, h'.decoder.trans h.decoder, h'.subscribers.trans h.subscribers⟩

theorem setup_propagate (s : Session) (a : Aggregate) (p : Progress) : SameSetup s (s.propagate a p).2.1 := by
  rw [propagate_stage]
  exact ⟨rfl, rfl, rfl⟩

theorem setup_recompute (s : Session) (a : Aggregate) (p : Progress) : SameSetup s (s.recompute a p).2.1 := by
  obtain ⟨q, -, hr⟩ := recompute_stage (Agrees.refl p) s a
  rw [hr]
  split
  · exact setup_propagate s _ q
  · exact ⟨rfl, rfl, rfl⟩

theorem propagate_lock (s : Session) (a : Aggregate) (p : Progress) :
    (s.propagate a p).2.1.aggregate.poisoned = (s.aggregate.poisoned || (s.propagate a p).1 == .panicked) := by
  rw [propagate_stage]

theorem recompute_lock (s : Session) (a : Aggregate) (p : Progress) :
    (s.recompute a p).2.1.aggregate.poisoned = (s.aggregate.poisoned || (s.recompute a p).1 == .panicked) := by
  obtain ⟨q, -, hr⟩ := recompute_stage (Agrees.refl p) s a
  rw [hr]
  split
  · exact propagate_lock s _ q
  · rfl

theorem recompute_files (s : Session) (a : Aggregate) (p : Progress) :
    (s.recompute a p).2.1.aggregate.value.files = a.files := by
  obtain ⟨q, -, hr⟩ := recompute_stage (Agrees.refl p) s a
  rw [hr]
  split
  · rw [propagate_stage]
    exact Aggregate.publish_files a _
  · rfl

theorem propagate_busy (s : Session) (a : Aggregate) (p : Progress) : (s.propagate a p).2.1.busy = s.busy := by
  rw [propagate_stage]

theorem recompute_busy (s : Session) (a : Aggregate) (p : Progress) : (s.recompute a p).2.1.busy = s.busy := by
  obtain ⟨q, -, hr⟩ := recompute_stage (Agrees.refl p) s a
  rw [hr]
  split
  · exact propagate_busy s _ q
  · rfl

theorem framed_subscribers {s : Session} {us : List Subscriber} (h : s.subscribers = us) :
    s.framed true us = s.busied := by
  rw [← h]
  rfl

theorem propagate_busied (s : Session) (a : Aggregate) (p : Progress) :
    s.busied.propagate a p = ((s.propagate a p).1, (s.propagate a p).2.1.busied, (s.propagate a p).2.2) := by
  rw [← framed_subscribers (setup_propagate s a p).subscribers, ← propagate_framed]
  rfl

theorem recompute_busied (s : Session) (a : Aggregate) (p : Progress) :
    s.busied.recompute a p = ((s.recompute a p).1, (s.recompute a p).2.1.busied, (s.recompute a p).2.2) := by
  rw [← framed_subscribers (setup_recompute s a p).subscribers, ← recompute_framed]
  rfl

theorem plan_busied (disk : FileSystem) (op : Operation) (s : Session) (p : Progress) :
    plan disk op s.busied p = plan disk op s p := by
  cases op <;> rfl

theorem run_performed {s : Session} (h : s.Idle) (disk : FileSystem) (op : Operation) (p : Progress) :
    s.run disk op p =
      let e := execute (inner disk) s.busied (plan disk op s p).1 (plan disk op s p).2
      ⟨e.answer, { e.session with busy := false }, handleLeft op p e.progress, e.notices⟩ := by
  rw [run_eq, perform, if_neg (by rw [h.busy]; decide), act, ← plan_busied]
  rfl

section Plans

variable {s : Session} {disk : FileSystem} {op : Operation} {p q : Progress}

theorem run_answer {a : Answer} (h : s.Idle) (hp : plan disk op s p = (.answer a, q)) :
    (s.run disk op p).answer = a ∧ (s.run disk op p).session = s ∧ (s.run disk op p).notices = [] := by
  rw [run_performed h, hp]
  refine ⟨rfl, ?_, rfl⟩
  rw [← h.busy]
  rfl

theorem settle_busied (answer : Outcome → Answer) (r : Ending × Session × Progress) :
    settle answer (r.1, r.2.1.busied, r.2.2) = settle answer r := by
  obtain ⟨ending, s, p⟩ := r
  cases ending <;> rfl

theorem run_concluded {answer : Outcome → Answer} {r : Ending × Session × Progress} (h : s.Idle)
    (hr : Flagged (r.1, r.2.1.busied, r.2.2))
    (he : execute (inner disk) s.busied (plan disk op s p).1 (plan disk op s p).2 =
      conclude (inner disk) answer (r.1, r.2.1.busied, r.2.2)) :
    (s.run disk op p).answer = settle answer r ∧ (s.run disk op p).session = r.2.1.released ∧
      (s.run disk op p).notices = (publicize (r.1, r.2.1.busied, r.2.2)).2 := by
  rw [run_performed h, he, conclude_flagged disk answer hr]
  exact ⟨settle_busied answer r, rfl, rfl⟩

section Merge

variable {a : Aggregate} {answer : Outcome → Answer} (h : s.Idle) (hp : plan disk op s p = (.merge a answer, q))
include h hp

theorem merge_concluded :
    (s.run disk op p).answer = settle answer (s.recompute a q) ∧
      (s.run disk op p).session = (s.recompute a q).2.1.released ∧
      (s.run disk op p).notices = (publicize (s.busied.recompute a q)).2 := by
  have hflagged := flagged_recompute (s := s.busied) rfl h.changed a q
  rw [recompute_busied] at hflagged ⊢
  apply run_concluded h hflagged
  rw [hp, execute, recompute_busied]

theorem run_merge :
    (s.run disk op p).answer = settle answer (s.recompute a q) ∧
      (s.run disk op p).session = (s.recompute a q).2.1.released :=
  ⟨(merge_concluded h hp).1, (merge_concluded h hp).2.1⟩

end Merge

section Clear

variable {a : Aggregate} (h : s.Idle) (hp : plan disk op s p = (.clear a, q))
include h hp

theorem clear_concluded :
    (s.run disk op p).answer = settle .outcome (s.propagate a q) ∧
      (s.run disk op p).session = (s.propagate a q).2.1.released ∧
      (s.run disk op p).notices = (publicize (s.busied.propagate a q)).2 := by
  have hflagged := flagged_propagate (s := s.busied) rfl h.changed a q
  rw [propagate_busied] at hflagged ⊢
  apply run_concluded h hflagged
  rw [hp, execute, propagate_busied]

theorem run_clear :
    (s.run disk op p).answer = settle .outcome (s.propagate a q) ∧
      (s.run disk op p).session = (s.propagate a q).2.1.released :=
  ⟨(clear_concluded h hp).1, (clear_concluded h hp).2.1⟩

end Clear

end Plans

theorem setup_run {s : Session} (h : s.Idle) (disk : FileSystem) (op : Operation) (p : Progress) :
    SameSetup s (s.run disk op p).session := by
  cases hp : plan disk op s p with
  | mk pl q =>
    cases pl with
    | answer a =>
      rw [(run_answer h hp).2.1]
      exact SameSetup.refl s
    | merge a answer =>
      rw [(run_merge h hp).2]
      obtain ⟨hlisting, hdecoder, hsubscribers⟩ := setup_recompute s a q
      exact ⟨hlisting, hdecoder, hsubscribers⟩
    | clear a =>
      rw [(run_clear h hp).2]
      obtain ⟨hlisting, hdecoder, hsubscribers⟩ := setup_propagate s a q
      exact ⟨hlisting, hdecoder, hsubscribers⟩

def runAll (disk : FileSystem) : List (Operation × Progress) → Session → List Answer × Session
  | [], s => ([], s)
  | (op, p) :: rest, s =>
    let r := s.run disk op p
    let (answers, t) := runAll disk rest r.session
    (r.answer :: answers, t)

end Session

end InstructionCoverage
