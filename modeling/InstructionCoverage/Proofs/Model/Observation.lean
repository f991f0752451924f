import InstructionCoverage.Model.Network
import InstructionCoverage.Proofs.Model.Recompute

/-!
What can be seen of an alignment model, between its operations and from inside them. An operation is taken apart into
steps, so that the model is there to be looked at whenever the progress handle is polled or an observer is notified.
-/

namespace InstructionCoverage

open Progress InstructionCoverage.Alignment

inductive Request where
  | load (ranges : List AddressRange)
  | update
  | clear
  | changed (published : Option (List AddressRange))

/-- How far an operation has come. `previous` is what a cancelled recompute puts back: the loaded ranges, and the
state. -/
inductive Work where
  | begun (r : Request)
  | reading (upstream : Option (List AddressRange)) (previous : Option (List AddressRange) × ModelState)
  | aligning (rest found : List AddressRange) (previous : Option (Option (List AddressRange) × ModelState))
  | notifying (os : List Observer)
  | ended (ending : Ending)

def Work.isSeen : Work → Bool
  | .begun _ => true
  | .reading _ _ => false
  | .aligning rest _ _ => !rest.isEmpty
  | .notifying os => !os.isEmpty
  | .ended _ => true

structure Moment where
  work : Work
  model : Alignment
  handle : Progress
  heard : List String

namespace Dependent

def perform (d : Dependent) (r : Request) (heard : List String) (p : Progress) :
    Ending × Dependent × List String × Progress :=
  match r with
  | .load ranges => (.completed, { d with alignment := d.alignment.load ranges }, heard, p)
  | .update => d.announce heard (d.alignment.rebuild d.listing p)
  | .clear => d.announce heard (.completed, d.alignment.cleared, p)
  | .changed published => d.changed published heard p

inductive Reached (l : Listing) : Dependent → Prop
  | start (attached : Bool) : Reached l (.ofListing l attached)
  | observe {d : Dependent} (o : Observer) (h : Reached l d) : Reached l { d with observers := d.observers ++ [o] }
  | request {d : Dependent} (r : Request) (heard : List String) (p : Progress) (h : Reached l d) :
      Reached l (d.perform r heard p).2.1

end Dependent

namespace Moment

def restored (a : Alignment) : Option (Option (List AddressRange) × ModelState) → Alignment
  | none => a
  | some (ranges, state) => { a with ranges := ranges, state := state }

variable (d : Dependent)

def advance (m : Moment) : Moment :=
  let a := m.model
  match m.work with
  | .begun (.load ranges) => { m with work := .ended .completed, model := a.load ranges }
  | .begun .update =>
    match a.ranges with
    | none =>
      { m with work := .notifying d.observers, model := { a with hits := ∅, alignedFrom := none, state := .empty } }
    | some ranges => { m with work := .aligning ranges [] none }
  | .begun .clear => { m with work := .notifying d.observers, model := a.cleared }
  | .begun (.changed published) =>
    { m with work := .reading (d.source published) (a.ranges, a.state), model := { a with state := .stale } }
  | .reading none _ => { m with work := .notifying d.observers, model := a.cleared }
  | .reading (some ranges) previous => { m with work := .aligning ranges [] (some previous), model := a.load ranges }
  | .aligning [] found _ =>
    { m with work := .notifying d.observers,
             model := { a with hits := .ofList found, alignedFrom := a.ranges, state := .loaded } }
  | .aligning (r :: rest) found previous =>
    match m.handle.poll with
    | (.completed, p) =>
      let found := found ++ (d.listing.instructionsWithin r).map Instruction.span
      { m with work := .aligning rest found previous, handle := p }
    | (.cancelled, p) =>
      { m with work := .ended .cancelled, model := restored a previous, handle := p }
    | (.panicked, p) => { m with work := .ended .panicked, handle := p }
  | .notifying [] => { m with work := .ended .completed }
  | .notifying (o :: os) =>
    match o.react m.handle with
    | (.completed, p) => { m with work := .notifying os, handle := p, heard := m.heard ++ [o.name] }
    | (stop, p) => { m with work := .ended stop, handle := p, heard := m.heard ++ [o.name] }
  | .ended _ => m

def after : Nat → Moment → Moment
  | 0, m => m
  | k + 1, m => after k (m.advance d)

def Leads (m n : Moment) : Prop :=
  ∃ k, after d k m = n

variable {d}

theorem Leads.refl (m : Moment) : Leads d m m := ⟨0, rfl⟩

theorem Leads.of_advance {m n : Moment} (h : Leads d (m.advance d) n) : Leads d m n := by
  obtain ⟨k, h⟩ := h
  exact ⟨k + 1, h⟩

theorem after_add (j k : Nat) (m : Moment) : after d (j + k) m = after d k (after d j m) := by
  induction j generalizing m with
  | zero => rw [Nat.zero_add]; rfl
  | succ j ih =>
    rw [Nat.succ_add]
    exact ih (m.advance d)

theorem Leads.trans {m n o : Moment} (h : Leads d m n) (h' : Leads d n o) : Leads d m o := by
  obtain ⟨j, rfl⟩ := h
  obtain ⟨k, rfl⟩ := h'
  exact ⟨j + k, after_add j k m⟩

def ofEnd (r : Ending × Dependent × List String × Progress) : Moment :=
  ⟨.ended r.1, r.2.1.alignment, r.2.2.2, r.2.2.1⟩

theorem leads_notifying (os : List Observer) (a : Alignment) (p : Progress) (heard : List String) :
    Leads d ⟨.notifying os, a, p, heard⟩
      ⟨.ended (Observer.notify os heard p).1, a, (Observer.notify os heard p).2.2,
        (Observer.notify os heard p).2.1⟩ := by
  induction os generalizing p heard with
  | nil => exact .of_advance (.refl _)
  | cons o os ih =>
    apply Leads.of_advance
    rw [Observer.notify, advance]
    dsimp only
    cases o.react p with
    | mk ending q =>
      cases ending with
      | completed => exact ih q _
      | cancelled => exact .refl _
      | panicked => exact .refl _

theorem leads_announced (a : Alignment) (p : Progress) (heard : List String) :
    Leads d ⟨.notifying d.observers, a, p, heard⟩ (ofEnd (d.announce heard (.completed, a, p))) :=
  leads_notifying d.observers a p heard

theorem leads_aligning {a : Alignment} {all : List AddressRange} (ha : a.ranges = some all)
    (previous : Option (Option (List AddressRange) × ModelState)) (rest found : List AddressRange) (p : Progress)
    (heard : List String) :
    Leads d ⟨.aligning rest found previous, a, p, heard⟩
      (ofEnd (d.announce heard (match align d.listing rest found p with
        | (.completed, found, p) =>
          (.completed, { a with hits := .ofList found, alignedFrom := some all, state := .loaded }, p)
        | (.cancelled, _, p) => (.cancelled, restored a previous, p)
        | (.panicked, _, p) => (.panicked, a, p)))) := by
  induction rest generalizing found p with
  | nil =>
    apply Leads.of_advance
    rw [advance, align, ← ha]
    exact leads_announced _ p heard
  | cons r rest ih =>
    apply Leads.of_advance
    rw [advance, align]
    dsimp only
    cases p.poll with
    | mk ending q =>
      cases ending with
      | completed => exact ih _ q
      | cancelled => cases previous <;> exact .refl _
      | panicked => exact .refl _

theorem leads_perform (r : Request) (heard : List String) (p : Progress) :
    Leads d ⟨.begun r, d.alignment, p, heard⟩ (ofEnd (d.perform r heard p)) := by
  apply Leads.of_advance
  cases r with
  | load ranges => exact .refl _
  | clear => exact leads_announced _ p heard
  | update =>
    rw [Dependent.perform, rebuild, advance]
    dsimp only
    cases ha : d.alignment.ranges with
    | none => exact leads_announced _ p heard
    | some ranges =>
      dsimp only
      have hleads := leads_aligning (d := d) ha none ranges [] p heard
      cases hr : align d.listing ranges [] p with
      | mk ending found =>
        obtain ⟨found, q⟩ := found
        rw [hr, ha] at hleads
        cases ending <;> exact hleads
  | changed published =>
    have hend : ofEnd (d.perform (.changed published) heard p) =
        ofEnd (d.announce heard (d.alignment.follow d.listing (d.source published) p)) := rfl
    rw [hend, advance]
    apply Leads.of_advance
    rw [advance]
    dsimp only
    cases d.source published with
    | none => exact leads_announced _ p heard
    | some ranges =>
      dsimp only [follow, rebuild, load]
      have hleads := leads_aligning (d := d) (a := { d.alignment with ranges := some ranges, state := .loaded }) rfl
        (some (d.alignment.ranges, d.alignment.state)) ranges [] p heard
      cases hr : align d.listing ranges [] p with
      | mk ending found =>
        obtain ⟨found, q⟩ := found
        rw [hr] at hleads
        cases ending <;> exact hleads

end Moment

namespace Alignment

structure Faithful (l : Listing) (a : Alignment) : Prop where
  hits : a.hits = match a.alignedFrom with
    | none => ∅
    | some ranges => .ofList (align l ranges [] .unbounded).2.1
  state : a.state = if a.ranges.isSome then .loaded else .empty
  blank : a.ranges = none → a.alignedFrom = none

variable {l : Listing} {a : Alignment}

theorem Faithful.load (h : a.Faithful l) (ranges : List AddressRange) : (a.load ranges).Faithful l :=
  ⟨h.hits, rfl, fun hnone => by cases hnone⟩

theorem faithful_cleared (l : Listing) (a : Alignment) : a.cleared.Faithful l :=
  ⟨rfl, rfl, fun _ => rfl⟩

theorem faithful_aligned {ranges : List AddressRange} (ha : a.ranges = some ranges) :
    Faithful l { a with hits := .ofList (spans l ranges), alignedFrom := a.ranges, state := .loaded } := by
  refine ⟨?_, by rw [ha]; rfl, fun hnone => hnone⟩
  dsimp only
  rw [ha]
  exact hitsOf_eq_align l ranges

end Alignment

namespace Moment

variable {d : Dependent} {m : Moment}

def Kept (l : Listing) (m : Moment) : Prop :=
  match m.work with
  | .begun _ => m.model.Faithful l
  | .reading _ (ranges, state) => ranges = m.model.ranges ∧ Faithful l { m.model with state := state }
  | .aligning rest found previous =>
    m.model.Faithful l ∧ (∃ done, m.model.ranges = some (done ++ rest) ∧ found = spans l done) ∧
      (restored m.model previous).Faithful l
  | .notifying _ => m.model.Faithful l
  | .ended _ => m.model.Faithful l

theorem kept_advance (h : Kept d.listing m) : Kept d.listing (m.advance d) := by
  obtain ⟨work, a, p, heard⟩ := m
  cases work with
  | begun r =>
    cases r with
    | load ranges => exact Faithful.load h ranges
    | clear => exact faithful_cleared d.listing a
    | changed published => exact ⟨rfl, h⟩
    | update =>
      rw [advance]
      dsimp only
      cases ha : a.ranges with
      | none => exact ⟨rfl, rfl, fun _ => rfl⟩
      | some ranges => exact ⟨h, ⟨[], ha, rfl⟩, h⟩
  | reading upstream previous =>
    obtain ⟨ranges, state⟩ := previous
    obtain ⟨hranges, h⟩ : ranges = a.ranges ∧ Faithful d.listing { a with state := state } := h
    subst hranges
    cases upstream with
    | none => exact faithful_cleared d.listing a
    | some upstream => exact ⟨h.load upstream, ⟨[], rfl, rfl⟩, h⟩
  | aligning rest found previous =>
    obtain ⟨h, ⟨done, hranges, rfl⟩, hrestored⟩ := h
    cases rest with
    | nil =>
      rw [List.append_nil] at hranges
      exact faithful_aligned hranges
    | cons r rest =>
      rw [advance]
      dsimp only
      cases p.poll with
      | mk ending q =>
        cases ending with
        | completed =>
          refine ⟨h, ⟨done ++ [r], ?_, ?_⟩, hrestored⟩
          · rw [List.append_assoc]
            exact hranges
          · simp only [spans, List.flatMap_append, List.flatMap_singleton]
        | cancelled => exact hrestored
        | panicked => exact h
  | notifying os =>
    cases os with
    | nil => exact h
    | cons o os =>
      rw [advance]
      dsimp only
      cases o.react p with
      | mk ending q => cases ending <;> exact h
  | ended ending => exact h

theorem kept_after (k : Nat) (h : Kept d.listing m) : Kept d.listing (after d k m) := by
  induction k generalizing m with
  | zero => exact h
  | succ k ih => exact ih (kept_advance h)

theorem Kept.faithful {l : Listing} (h : Kept l m) (hs : m.work.isSeen = true) : m.model.Faithful l := by
  obtain ⟨work, a, p, heard⟩ := m
  cases work with
  | reading upstream previous => cases hs
  | aligning rest found previous => exact h.1
  | begun r => exact h
  | notifying os => exact h
  | ended ending => exact h

end Moment

namespace Dependent

variable {l : Listing} {d : Dependent}

theorem announce_frame (d : Dependent) (heard : List String) (r : Ending × Alignment × Progress) :
    (d.announce heard r).2.1.listing = d.listing := by
  obtain ⟨ending, a, p⟩ := r
  cases ending <;> rfl

theorem perform_listing (d : Dependent) (r : Request) (heard : List String) (p : Progress) :
    (d.perform r heard p).2.1.listing = d.listing := by
  cases r with
  | load ranges => rfl
  | update => exact announce_frame d heard _
  | clear => exact announce_frame d heard _
  | changed published => exact announce_frame d heard _

theorem perform_faithful (h : d.alignment.Faithful d.listing) (r : Request) (heard : List String) (p : Progress) :
    (d.perform r heard p).2.1.alignment.Faithful d.listing := by
  obtain ⟨k, hk⟩ := Moment.leads_perform (d := d) r heard p
  have hkept : Moment.Kept d.listing (Moment.after d k ⟨.begun r, d.alignment, p, heard⟩) := Moment.kept_after k h
  rw [hk] at hkept
  exact hkept

theorem Reached.faithful (h : Reached l d) : d.listing = l ∧ d.alignment.Faithful l := by
  induction h with
  | start attached => exact ⟨rfl, rfl, rfl, fun _ => rfl⟩
  | observe o _ ih => exact ih
  | request r heard p _ ih =>
    obtain ⟨rfl, hfaithful⟩ := ih
    exact ⟨perform_listing _ r heard p, perform_faithful hfaithful r heard p⟩

/-- Whoever looks at the model finds hits that belong to the ranges they are given for. It never looks stale, though it
is so for a moment. -/
theorem seen_faithful (h : Reached l d) (r : Request) (heard : List String) (p : Progress) :
    let start : Moment := ⟨.begun r, d.alignment, p, heard⟩
    (∀ k, (Moment.after d k start).work.isSeen = true →
      let a := (Moment.after d k start).model
      a.Faithful l ∧ a.state ≠ .stale ∧ (a.state = .empty → a.alignedFrom = none ∧ a.hits = ∅)) ∧
    Moment.Leads d start (Moment.ofEnd (d.perform r heard p)) := by
  intro start
  refine ⟨?_, Moment.leads_perform r heard p⟩
  intro k hs a
  obtain ⟨rfl, hstart⟩ := h.faithful
  have ha : a.Faithful d.listing := (Moment.kept_after (m := start) k hstart).faithful hs
  refine ⟨ha, ?_, ?_⟩
  · rw [ha.state]
    split <;> decide
  · intro hempty
    rw [ha.state] at hempty
    have hnone : a.ranges = none := by
      cases hr : a.ranges with
      | none => rfl
      | some ranges =>
        rw [hr] at hempty
        cases hempty
    have halignedFrom := ha.blank hnone
    refine ⟨halignedFrom, ?_⟩
    rw [ha.hits, halignedFrom]

def first : AddressRange := ⟨⟨0x30, by decide⟩, ⟨0x33, by decide⟩, by decide⟩
def second : AddressRange := ⟨⟨0x34, by decide⟩, ⟨0x35, by decide⟩, by decide⟩

def pairListing : Listing :=
  InstructionListing.toListing ⟨[⟨⟨0x30, by decide⟩, 4⟩, ⟨⟨0x34, by decide⟩, 2⟩], [], by decide⟩

def struckDependent : Dependent :=
  let d := ((ofListing pairListing true).perform (.changed (some [first])) [] .unbounded).2.1
  (d.perform (.changed (some [second, first])) [] (.panicAfter 1)).2.1

theorem seen_faithful_struck :
    Reached pairListing struckDependent ∧
      let m := Moment.after struckDependent 2
        ⟨.begun (.changed (some [second])), struckDependent.alignment, .unbounded, []⟩
      m.work.isSeen = true ∧ m.model.Faithful pairListing ∧ m.model.state = .loaded ∧
        m.model.ranges = some [second] ∧ m.model.alignedFrom = some [first] ∧ m.model.hits.toList = [first] := by
  have h : Reached pairListing struckDependent := ((Reached.start true).request _ _ _).request _ _ _
  obtain ⟨hseen, -⟩ := seen_faithful h (.changed (some [second])) [] .unbounded
  exact ⟨h, rfl, (hseen 2 rfl).1, by decide +kernel, by decide +kernel, by decide +kernel, by decide +kernel⟩

end Dependent

end InstructionCoverage
