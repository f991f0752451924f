import InstructionCoverage.Proofs.Model.Delivery

namespace InstructionCoverage

open Progress

namespace Observer

inductive Pass : List Observer → Progress → Progress → Prop
  | nil {p : Progress} : Pass [] p p
  | cons {o : Observer} {os : List Observer} {p q r : Progress} (completes : o.react p = (.completed, q))
      (rest : Pass os q r) : Pass (o :: os) p r

inductive Calls (os : List Observer) (p : Progress) : List Observer → Ending → Progress → Prop
  | all {q : Progress} (pass : Pass os p q) : Calls os p os .completed q
  | stopped {before rest : List Observer} {o : Observer} {ending : Ending} {q r : Progress}
      (eq : os = before ++ o :: rest) (pass : Pass before p q) (stops : o.react q = (ending, r))
      (ne : ending ≠ .completed) : Calls os p (before ++ [o]) ending r

theorem Calls.cons {o : Observer} {os called : List Observer} {p q r : Progress} {ending : Ending}
    (completes : o.react p = (.completed, q)) (h : Calls os q called ending r) :
    Calls (o :: os) p (o :: called) ending r := by
  cases h with
  | all pass => exact .all (.cons completes pass)
  | stopped eq pass stops ne =>
    subst eq
    exact .stopped rfl (.cons completes pass) stops ne

theorem notify_calls (os : List Observer) (heard : List String) (p : Progress) :
    ∃ called, Calls os p called (notify os heard p).1 (notify os heard p).2.2 ∧
      (notify os heard p).2.1 = heard ++ called.map Observer.name := by
  induction os generalizing heard p with
  | nil => exact ⟨[], .all .nil, by simp [notify]⟩
  | cons o os ih =>
    rw [notify]
    cases hr : o.react p with
    | mk ending q =>
      have stopped (hne : ending ≠ .completed) : Calls (o :: os) p [o] ending q :=
        .stopped rfl .nil hr hne
      cases ending with
      | completed =>
        obtain ⟨called, hcalls, hheard⟩ := ih (heard ++ [o.name]) q
        refine ⟨o :: called, hcalls.cons hr, ?_⟩
        dsimp only
        rw [hheard, List.map_cons, List.append_assoc, List.singleton_append]
      | cancelled => exact ⟨[o], stopped (by decide), rfl⟩
      | panicked => exact ⟨[o], stopped (by decide), rfl⟩

end Observer

namespace Dependent

variable {d : Dependent} {published : Option (List AddressRange)} {p : Progress}

theorem changed_cut {k : Nat} (h : p.CutAt k) (hk : k < Alignment.distance (d.source published))
    (heard : List String) :
    d.changed published heard p = (.cancelled, d, heard, { p with polls := p.polls + (k + 1) }) := by
  have hg := h.grant hk
  rw [changed_withdrawn (by rw [hg]), hg]

theorem changed_passed (h : ∀ j < Alignment.distance (d.source published), p.answers (p.polls + j) = .completed)
    (heard : List String) :
    d.changed published heard p =
      let r := Observer.notify d.observers heard { p with polls := p.polls + Alignment.distance (d.source published) }
      (r.1, { d.realigned published with poisoned := d.poisoned || r.1 == .panicked }, r.2) := by
  have hg := grant_passed h
  rw [changed_granted (by rw [hg]), hg]

/-- Whatever state a dependent is in, either one of the polls for the new ranges is cancelled, and then nothing of it
changes and no observer is called, or it takes over what is published and its observers are called with the handle. -/
theorem changed_atomic (d : Dependent) (published : Option (List AddressRange)) (heard : List String) {p : Progress}
    (hp : p.Calm) :
    let n := Alignment.distance (d.source published)
    let r := d.changed published heard p
    ((∃ k < n, p.CutAt k ∧ r = (.cancelled, d, heard, { p with polls := p.polls + (k + 1) })) ∨
      (∀ j < n, p.answers (p.polls + j) = .completed) ∧
        (d.source published = none → r.2.1.alignment = .empty) ∧
        (∀ u, d.source published = some u →
          r.2.1.alignment = ⟨some u, some u, .ofList (Alignment.align d.listing u [] .unbounded).2.1, .loaded⟩) ∧
        ∃ called, Observer.Calls d.observers { p with polls := p.polls + n } called r.1 r.2.2.2 ∧
          r.2.2.1 = heard ++ called.map Observer.name) ∧
    ∀ k, p.CutAt k → ((∃ j < n, p.CutAt j) ↔ k < n) := by
  intro n r
  constructor
  · rcases hp.cut_or_passed n with ⟨k, hk, hcut⟩ | hpassed
    · exact .inl ⟨k, hk, hcut, changed_cut hcut hk heard⟩
    · have hr : r = _ := changed_passed hpassed heard
      obtain ⟨called, hcalls, hheard⟩ := Observer.notify_calls d.observers heard { p with polls := p.polls + n }
      rw [hr]
      refine .inr ⟨hpassed, ?_, ?_, called, hcalls, hheard⟩
      · intro hnone
        dsimp only [realigned]
        rw [hnone]
        rfl
      · intro u hsome
        dsimp only [realigned]
        rw [hsome, Alignment.ofPublished, Alignment.hitsOf_eq_align]
  · intro k hk
    constructor
    · rintro ⟨j, hj, hcut⟩
      rwa [hk.unique hcut]
    · exact fun hlt => ⟨k, hlt, hk⟩

def unsettledDependent : Dependent where
  listing := InstructionListing.toListing ⟨[⟨⟨0x50, by decide⟩, 4⟩, ⟨⟨0x54, by decide⟩, 2⟩], [], by decide⟩
  alignment := ⟨some [], none, ∅, .loaded⟩
  attached := true
  observers := [⟨"first", .poll⟩, ⟨"second", .cancel⟩, ⟨"third", .accept⟩]
  poisoned := true

def twoRanges : List AddressRange :=
  [⟨⟨0x50, by decide⟩, ⟨0x53, by decide⟩, by decide⟩, ⟨⟨0x50, by decide⟩, ⟨0x55, by decide⟩, by decide⟩]

theorem changed_atomic_unsettled :
    let r := unsettledDependent.changed (some twoRanges) [] (cancelAfter 3)
    (cancelAfter 3).Calm ∧ (cancelAfter 3).CutAt 3 ∧ r.1 = .cancelled ∧
      r.2.1.alignment.alignedFrom = some twoRanges ∧ r.2.2.1 = ["first", "second"] ∧
      unsettledDependent.changed (some twoRanges) [] (cancelAfter 1) =
        (.cancelled, unsettledDependent, [], { cancelAfter 1 with polls := 2 }) := by
  intro r
  have hcut := cancelAfter_cutAt 3
  refine ⟨cancelAfter_calm 3, hcut, by decide +kernel, ?_, by decide +kernel, ?_⟩
  · rcases changed_atomic unsettledDependent (some twoRanges) [] (cancelAfter_calm 3) with
      ⟨⟨k, hk, hcut', -⟩ | ⟨-, -, hloaded, -⟩, -⟩
    · have hlt : k < 2 := hk
      rw [hcut'.unique hcut] at hlt
      omega
    · have halignment : r.2.1.alignment = _ := hloaded twoRanges rfl
      rw [halignment]
  · rcases changed_atomic unsettledDependent (some twoRanges) [] (cancelAfter_calm 1) with
      ⟨⟨k, -, hcut', hr⟩ | ⟨hpassed, -⟩, -⟩
    · rw [hr, hcut'.unique (cancelAfter_cutAt 1)]
      rfl
    · exact absurd (hpassed 1 (by decide)) (by decide)

end Dependent

end InstructionCoverage
