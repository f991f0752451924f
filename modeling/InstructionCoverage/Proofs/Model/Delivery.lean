import InstructionCoverage.Model.Network
import InstructionCoverage.Proofs.Model.Recompute
import Mathlib.Data.List.Chain

namespace InstructionCoverage

open Progress

def Reaction.Calm (react : Reaction) : Prop :=
  ∀ p : Progress, p.Calm → (react p).1 ≠ .panicked ∧ (react p).2.Calm

theorem Reaction.accept_calm : accept.Calm := by
  intro p hp
  exact ⟨by simp [accept], hp⟩

theorem Observer.notify_calm {os : List Observer} (h : ∀ o ∈ os, o.react.Calm) {p : Progress} (hp : p.Calm)
    (heard : List String) : (notify os heard p).1 ≠ .panicked ∧ (notify os heard p).2.2.Calm := by
  induction os generalizing p heard with
  | nil => exact ⟨by simp [notify], hp⟩
  | cons o os ih =>
    have ho := h o List.mem_cons_self p hp
    rw [notify]
    cases hr : o.react p with
    | mk ending q =>
      rw [hr] at ho
      cases ending with
      | completed => exact ih (fun o' ho' => h o' (List.mem_cons_of_mem _ ho')) ho.2 _
      | cancelled => exact ho
      | panicked => exact ho

theorem Observer.notify_heard (os : List Observer) (heard : List String) (p : Progress) :
    notify os heard p = ((notify os [] p).1, heard ++ (notify os [] p).2.1, (notify os [] p).2.2) := by
  induction os generalizing p heard with
  | nil => simp [notify]
  | cons o os ih =>
    rw [notify, notify]
    cases o.react p with
    | mk ending q =>
      cases ending with
      | completed =>
        simp only [List.nil_append]
        rw [ih (heard ++ [o.name]), ih [o.name]]
        simp
      | cancelled => rfl
      | panicked => rfl

namespace Dependent

def Calm (d : Dependent) : Prop :=
  ∀ o ∈ d.observers, o.react.Calm

def realigned (d : Dependent) (published : Option (List AddressRange)) : Dependent :=
  { d with alignment := .ofPublished d.listing (d.source published) }

theorem realigned_realigned (d : Dependent) (published : Option (List AddressRange)) :
    (d.realigned published).realigned published = d.realigned published := rfl

theorem realigned_reads {d : Dependent} (h : d.attached = true) (a : Aggregate) :
    let e := d.realigned (a.publish a.files.union).published
    e.alignment.alignedFrom = (a.publish a.files.union).published ∧
      e.alignment.hits = .ofList (Alignment.align d.listing a.files.union [] .unbounded).2.1 ∧
      (a.files.size = 0 → e.alignment = .empty) := by
  have hsource : d.source (a.publish a.files.union).published = (a.publish a.files.union).published := if_pos h
  rw [realigned, hsource]
  refine ⟨Alignment.ofPublished_alignedFrom _ _, ?_, ?_⟩
  · rw [← Alignment.hitsOf_eq_align]
    exact Aggregate.hits_ofPublished d.listing a
  · intro hempty
    rw [Aggregate.publish_published, if_pos hempty]
    rfl

def recomputeEnding (d : Dependent) (published : Option (List AddressRange)) (p : Progress) : Ending :=
  (d.alignment.follow d.listing (d.source published) p).1

def notified (d : Dependent) (published : Option (List AddressRange)) (p : Progress) : List String :=
  match d.alignment.follow d.listing (d.source published) p with
  | (.completed, _, p) => (Observer.notify d.observers [] p).2.1
  | _ => []

section Changed

variable {d : Dependent} {published : Option (List AddressRange)} {p : Progress}

theorem changed_granted (h : (p.grant (Alignment.distance (d.source published))).1 = .completed) (heard : List String) :
    d.changed published heard p =
      let r := Observer.notify d.observers heard (p.grant (Alignment.distance (d.source published))).2
      (r.1, { d.realigned published with poisoned := d.poisoned || r.1 == .panicked }, r.2) := by
  rw [changed, Alignment.follow_stage, h]
  rfl

theorem changed_withdrawn (h : (p.grant (Alignment.distance (d.source published))).1 = .cancelled)
    (heard : List String) :
    d.changed published heard p = (.cancelled, d, heard, (p.grant (Alignment.distance (d.source published))).2) := by
  have hpoisoned : (Ending.cancelled == .panicked) = false := rfl
  rw [changed, Alignment.follow_stage, h]
  simp only [announce, Alignment.followed, hpoisoned, Bool.or_false]

theorem changed_completed (hd : d.Calm) (hp : p.Calm) (h : d.recomputeEnding published p = .completed)
    (heard : List String) :
    (d.changed published heard p).1 ≠ .panicked ∧ (d.changed published heard p).2.1 = d.realigned published ∧
      (d.changed published heard p).2.2.2.Calm := by
  rw [recomputeEnding, Alignment.follow_stage] at h
  have hcalm : (p.grant (Alignment.distance (d.source published))).2.Calm := hp.of_answers (grant_answers _ _)
  obtain ⟨hending, hleft⟩ := Observer.notify_calm hd hcalm heard
  have hpoisoned : ((Observer.notify d.observers heard
      (p.grant (Alignment.distance (d.source published))).2).1 == .panicked) = false := by
    simpa using hending
  rw [changed_granted h]
  refine ⟨hending, ?_, hleft⟩
  simp only [hpoisoned, Bool.or_false]
  rfl

theorem changed_cancelled (hp : p.Calm) (h : d.recomputeEnding published p ≠ .completed) (heard : List String) :
    (d.changed published heard p).1 = .cancelled ∧ (d.changed published heard p).2.1 = d ∧
      (d.changed published heard p).2.2.2.Calm := by
  rw [recomputeEnding, Alignment.follow_stage] at h
  dsimp only at h
  have hcalm : (p.grant (Alignment.distance (d.source published))).2.Calm := hp.of_answers (grant_answers _ _)
  cases hg : (p.grant (Alignment.distance (d.source published))).1 with
  | completed => exact absurd hg h
  | panicked => exact absurd hg (hp.grant _)
  | cancelled =>
    rw [changed_withdrawn hg]
    exact ⟨rfl, rfl, hcalm⟩

theorem changed_calm (hd : d.Calm) (hp : p.Calm) (published : Option (List AddressRange)) (heard : List String) :
    (d.changed published heard p).1 ≠ .panicked ∧ (d.changed published heard p).2.1.observers = d.observers ∧
      (d.changed published heard p).2.2.2.Calm := by
  by_cases h : d.recomputeEnding published p = .completed
  · obtain ⟨hending, hdependent, hleft⟩ := changed_completed hd hp h heard
    exact ⟨hending, by rw [hdependent]; rfl, hleft⟩
  · obtain ⟨hending, hdependent, hleft⟩ := changed_cancelled hp h heard
    exact ⟨by rw [hending]; decide, by rw [hdependent], hleft⟩

theorem changed_heard (d : Dependent) (published : Option (List AddressRange)) (heard : List String) (p : Progress) :
    (d.changed published heard p).2.2.1 = heard ++ d.notified published p := by
  rw [changed, notified]
  cases d.alignment.follow d.listing (d.source published) p with
  | mk ending r =>
    cases ending with
    | completed =>
      dsimp only [announce]
      rw [Observer.notify_heard]
    | cancelled => exact (List.append_nil _).symm
    | panicked => exact (List.append_nil _).symm

end Changed

end Dependent

structure Call where
  target : Target
  network : Network
  handle : Progress

namespace Call

def result (c : Call) : Ending × Network × Progress :=
  c.network.tell c.target c.handle

def Precedes (c next : Call) : Prop :=
  c.result = (.completed, next.network, next.handle)

def Realigns (c : Call) (i : Nat) : Prop :=
  c.target = .dependent i ∧
    ∃ d, c.network.dependents[i]? = some d ∧ d.recomputeEnding c.network.aggregate.published c.handle = .completed

def heard (c : Call) : List String :=
  match c.target with
  | .observer o => [o.name]
  | .dependent i =>
    match c.network.dependents[i]? with
    | none => []
    | some d => d.notified c.network.aggregate.published c.handle

end Call

def Target.Calm : Target → Prop
  | .dependent _ => True
  | .observer o => o.react.Calm

namespace Network

structure Calm (n : Network) : Prop where
  targets : ∀ t ∈ n.targets, t.Calm
  dependents : ∀ d ∈ n.dependents, d.Calm

def calls : List Target → Network → Progress → List Call
  | [], _, _ => []
  | t :: ts, n, p =>
    ⟨t, n, p⟩ ::
      match n.tell t p with
      | (.completed, n, p) => calls ts n p
      | _ => []

section Tell

variable {n : Network} {t : Target} {p : Progress} {i : Nat} {d : Dependent}

theorem tell_dependent (h : n.dependents[i]? = some d) :
    n.tell (.dependent i) p =
      let r := d.changed n.aggregate.published n.heard p
      (r.1, { n with dependents := n.dependents.set i r.2.1, heard := r.2.2.1 }, r.2.2.2) := by
  rw [tell, onDependent, h]

theorem tell_nobody (h : n.dependents[i]? = none) : n.tell (.dependent i) p = (.completed, n, p) := by
  rw [tell, onDependent, h]

theorem tell_aggregate (n : Network) (t : Target) (p : Progress) : (n.tell t p).2.1.aggregate = n.aggregate := by
  cases t with
  | observer o => rfl
  | dependent i =>
    cases h : n.dependents[i]? with
    | none => rw [tell_nobody h]
    | some d => rw [tell_dependent h]

theorem tell_heard (n : Network) (t : Target) (p : Progress) :
    (n.tell t p).2.1.heard = n.heard ++ Call.heard ⟨t, n, p⟩ := by
  cases t with
  | observer o => rfl
  | dependent i =>
    cases h : n.dependents[i]? with
    | none =>
      rw [tell_nobody h]
      dsimp only [Call.heard]
      rw [h, List.append_nil]
    | some d =>
      rw [tell_dependent h]
      dsimp only [Call.heard]
      rw [h]
      exact Dependent.changed_heard d _ _ _

theorem tell_calm (hn : ∀ d ∈ n.dependents, d.Calm) (ht : t.Calm) (hp : p.Calm) :
    (n.tell t p).1 ≠ .panicked ∧ (∀ d ∈ (n.tell t p).2.1.dependents, d.Calm) ∧ (n.tell t p).2.2.Calm := by
  cases t with
  | observer o =>
    obtain ⟨hending, hleft⟩ := ht p hp
    exact ⟨hending, hn, hleft⟩
  | dependent i =>
    cases h : n.dependents[i]? with
    | none =>
      rw [tell_nobody h]
      exact ⟨by simp, hn, hp⟩
    | some d =>
      have hd := hn d (List.mem_of_getElem? h)
      obtain ⟨hending, hobservers, hleft⟩ := Dependent.changed_calm hd hp n.aggregate.published n.heard
      rw [tell_dependent h]
      refine ⟨hending, ?_, hleft⟩
      intro e he
      rcases List.mem_or_eq_of_mem_set he with he | rfl
      · exact hn e he
      · intro o ho
        rw [hobservers] at ho
        exact hd o ho

theorem tell_realigned (hn : ∀ d ∈ n.dependents, d.Calm) (hp : p.Calm) (hd : n.dependents[i]? = some d)
    (h : Call.Realigns ⟨t, n, p⟩ i) :
    (n.tell t p).2.1.dependents[i]? = some (d.realigned n.aggregate.published) := by
  obtain ⟨rfl, e, he, hending⟩ := h
  obtain rfl : d = e := Option.some.inj (hd.symm.trans he)
  obtain ⟨-, hdependent, -⟩ :=
    Dependent.changed_completed (hn d (List.mem_of_getElem? hd)) hp hending n.heard
  rw [tell_dependent hd]
  dsimp only
  rw [hdependent, List.getElem?_set_self (List.getElem?_eq_some_iff.1 hd).1]

theorem tell_kept (hp : p.Calm) (hd : n.dependents[i]? = some d) (h : ¬ Call.Realigns ⟨t, n, p⟩ i) :
    (n.tell t p).2.1.dependents[i]? = some d := by
  cases t with
  | observer o => exact hd
  | dependent j =>
    by_cases hj : j = i
    · subst hj
      have hending : d.recomputeEnding n.aggregate.published p ≠ .completed := fun hc => h ⟨rfl, d, hd, hc⟩
      obtain ⟨-, hdependent, -⟩ := Dependent.changed_cancelled hp hending n.heard
      rw [tell_dependent hd]
      dsimp only
      rw [hdependent, List.getElem?_set_self (List.getElem?_eq_some_iff.1 hd).1]
    · cases he : n.dependents[j]? with
      | none =>
        rw [tell_nobody he]
        exact hd
      | some e =>
        rw [tell_dependent he]
        dsimp only
        rw [List.getElem?_set_ne hj, hd]

end Tell

section Deliver

variable {n : Network} {t : Target} {ts : List Target} {p : Progress} {i : Nat} {d : Dependent}

theorem deliver_cons_completed (h : (n.tell t p).1 = .completed) :
    deliver (t :: ts) n p = deliver ts (n.tell t p).2.1 (n.tell t p).2.2 ∧
      calls (t :: ts) n p = ⟨t, n, p⟩ :: calls ts (n.tell t p).2.1 (n.tell t p).2.2 := by
  rw [deliver, calls]
  cases hr : n.tell t p with
  | mk ending r =>
    rw [hr] at h
    cases h
    exact ⟨rfl, rfl⟩

theorem deliver_cons_stopped (h : (n.tell t p).1 ≠ .completed) :
    deliver (t :: ts) n p = n.tell t p ∧ calls (t :: ts) n p = [⟨t, n, p⟩] := by
  rw [deliver, calls]
  cases hr : n.tell t p with
  | mk ending r =>
    rw [hr] at h
    cases ending with
    | completed => exact absurd rfl h
    | cancelled => exact ⟨rfl, rfl⟩
    | panicked => exact ⟨rfl, rfl⟩

theorem calls_prefix (ts : List Target) (n : Network) (p : Progress) : (calls ts n p).map Call.target <+: ts := by
  induction ts generalizing n p with
  | nil => exact List.nil_prefix
  | cons t ts ih =>
    by_cases h : (n.tell t p).1 = .completed
    · rw [(deliver_cons_completed h).2, List.map_cons, List.prefix_cons_inj]
      exact ih _ _
    · rw [(deliver_cons_stopped h).2]
      exact ⟨ts, rfl⟩

theorem calls_head {c : Call} (h : c ∈ (calls ts n p).head?) : c.network = n ∧ c.handle = p := by
  cases ts with
  | nil => cases h
  | cons t ts =>
    cases h
    exact ⟨rfl, rfl⟩

theorem calls_chain (ts : List Target) (n : Network) (p : Progress) : (calls ts n p).IsChain Call.Precedes := by
  induction ts generalizing n p with
  | nil => exact .nil
  | cons t ts ih =>
    by_cases h : (n.tell t p).1 = .completed
    · rw [(deliver_cons_completed h).2, List.isChain_cons]
      refine ⟨?_, ih _ _⟩
      intro c hc
      obtain ⟨hnetwork, hhandle⟩ := calls_head hc
      rw [Call.Precedes, hnetwork, hhandle]
      exact Prod.ext h rfl
    · rw [(deliver_cons_stopped h).2]
      exact .singleton _

theorem deliver_eq_last (ts : List Target) (n : Network) (p : Progress) :
    deliver ts n p = ((calls ts n p).getLast?.map Call.result).getD (.completed, n, p) := by
  induction ts generalizing n p with
  | nil => rfl
  | cons t ts ih =>
    by_cases h : (n.tell t p).1 = .completed
    · have hresult : Call.result ⟨t, n, p⟩ = (.completed, (n.tell t p).2.1, (n.tell t p).2.2) := Prod.ext h rfl
      rw [(deliver_cons_completed h).1, (deliver_cons_completed h).2, ih, List.getLast?_cons]
      cases (calls ts (n.tell t p).2.1 (n.tell t p).2.2).getLast? with
      | none => exact hresult.symm
      | some c => rfl
    · rw [(deliver_cons_stopped h).1, (deliver_cons_stopped h).2]
      rfl

theorem calls_all (h : (deliver ts n p).1 = .completed) : (calls ts n p).map Call.target = ts := by
  induction ts generalizing n p with
  | nil => rfl
  | cons t ts ih =>
    by_cases hc : (n.tell t p).1 = .completed
    · rw [(deliver_cons_completed hc).1] at h
      rw [(deliver_cons_completed hc).2, List.map_cons, ih h]
    · rw [(deliver_cons_stopped hc).1] at h
      exact absurd h hc

theorem deliver_aggregate (ts : List Target) (n : Network) (p : Progress) :
    (deliver ts n p).2.1.aggregate = n.aggregate := by
  induction ts generalizing n p with
  | nil => rfl
  | cons t ts ih =>
    by_cases h : (n.tell t p).1 = .completed
    · rw [(deliver_cons_completed h).1, ih, tell_aggregate]
    · rw [(deliver_cons_stopped h).1, tell_aggregate]

theorem deliver_heard (ts : List Target) (n : Network) (p : Progress) :
    (deliver ts n p).2.1.heard = n.heard ++ (calls ts n p).flatMap Call.heard := by
  induction ts generalizing n p with
  | nil => exact (List.append_nil _).symm
  | cons t ts ih =>
    by_cases h : (n.tell t p).1 = .completed
    · rw [(deliver_cons_completed h).1, (deliver_cons_completed h).2, ih, tell_heard, List.flatMap_cons,
        List.append_assoc]
    · rw [(deliver_cons_stopped h).1, (deliver_cons_stopped h).2, tell_heard, List.flatMap_singleton]

theorem deliver_calm (hn : ∀ d ∈ n.dependents, d.Calm) (hts : ∀ t ∈ ts, t.Calm) (hp : p.Calm) :
    (deliver ts n p).1 ≠ .panicked := by
  induction ts generalizing n p with
  | nil => simp [deliver]
  | cons t ts ih =>
    obtain ⟨hending, hdependents, hleft⟩ := tell_calm hn (hts t List.mem_cons_self) hp
    by_cases h : (n.tell t p).1 = .completed
    · rw [(deliver_cons_completed h).1]
      exact ih hdependents (fun t' ht' => hts t' (List.mem_cons_of_mem _ ht')) hleft
    · rw [(deliver_cons_stopped h).1]
      exact hending

theorem deliver_dependent (hn : ∀ d ∈ n.dependents, d.Calm) (hts : ∀ t ∈ ts, t.Calm) (hp : p.Calm)
    (hd : n.dependents[i]? = some d) :
    ((∃ c ∈ calls ts n p, c.Realigns i) →
      (deliver ts n p).2.1.dependents[i]? = some (d.realigned n.aggregate.published)) ∧
    ((∀ c ∈ calls ts n p, ¬ c.Realigns i) → (deliver ts n p).2.1.dependents[i]? = some d) := by
  induction ts generalizing n p d with
  | nil =>
    refine ⟨?_, fun _ => hd⟩
    rintro ⟨c, hc, -⟩
    cases hc
  | cons t ts ih =>
    obtain ⟨-, hdependents, hleft⟩ := tell_calm hn (hts t List.mem_cons_self) hp
    have hrest : ∀ t' ∈ ts, t'.Calm := fun t' ht' => hts t' (List.mem_cons_of_mem _ ht')
    by_cases h : (n.tell t p).1 = .completed
    · rw [(deliver_cons_completed h).1, (deliver_cons_completed h).2]
      by_cases hr : Call.Realigns ⟨t, n, p⟩ i
      · -- The dependent may be registered more than once. A later call finds it recomputed, and leaves it so.
        obtain ⟨again, left⟩ := ih hdependents hrest hleft (tell_realigned hn hp hd hr)
        rw [tell_aggregate, Dependent.realigned_realigned] at again
        refine ⟨fun _ => ?_, fun hnone => absurd hr (hnone _ List.mem_cons_self)⟩
        by_cases hlater : ∃ c ∈ calls ts (n.tell t p).2.1 (n.tell t p).2.2, c.Realigns i
        · exact again hlater
        · exact left fun c hc hcr => hlater ⟨c, hc, hcr⟩
      · obtain ⟨again, left⟩ := ih hdependents hrest hleft (tell_kept hp hd hr)
        rw [tell_aggregate] at again
        refine ⟨?_, fun hnone => left fun c hc => hnone c (List.mem_cons_of_mem _ hc)⟩
        rintro ⟨c, hc, hcr⟩
        rcases List.mem_cons.1 hc with rfl | hc
        · exact absurd hcr hr
        · exact again ⟨c, hc, hcr⟩
    · rw [(deliver_cons_stopped h).1, (deliver_cons_stopped h).2]
      refine ⟨?_, fun hnone => tell_kept hp hd (hnone _ List.mem_cons_self)⟩
      rintro ⟨c, hc, hcr⟩
      obtain rfl := List.mem_singleton.1 hc
      exact tell_realigned hn hp hd hcr

end Deliver

def published (n : Network) : Network :=
  { n with aggregate := n.aggregate.publish n.aggregate.files.union }

structure Delivered (n : Network) (cs : List Call) (r : Ending × Network × Progress) : Prop where
  files : r.2.1.aggregate.files = n.aggregate.files
  union : r.2.1.aggregate.union = n.aggregate.files.union
  snapshot : r.2.1.aggregate.published = if n.aggregate.files.size = 0 then none else some n.aggregate.files.union
  inOrder : cs.map Call.target <+: n.targets
  first : ∀ c ∈ cs.head?, c.network = n.published
  chained : cs.IsChain Call.Precedes
  last : ∀ c ∈ cs.getLast?, c.result = r
  heard : r.2.1.heard = n.heard ++ cs.flatMap Call.heard
  ending : r.1 = .completed ∧ cs.map Call.target = n.targets ∨ r.1 = .cancelled ∧ cs ≠ []
  realigned : ∀ i d, n.dependents[i]? = some d → d.attached = true → (∃ c ∈ cs, c.Realigns i) →
    ∃ e, r.2.1.dependents[i]? = some e ∧ e.alignment.alignedFrom = r.2.1.aggregate.published ∧
      e.alignment.hits = .ofList (Alignment.align d.listing n.aggregate.files.union [] .unbounded).2.1 ∧
      (n.aggregate.files.size = 0 → e.alignment = .empty)
  kept : ∀ i d, n.dependents[i]? = some d → d.attached = true → (∀ c ∈ cs, ¬ c.Realigns i) →
    r.2.1.dependents[i]? = some d

theorem update_merged {n : Network} {p : Progress} (h : (p.grant n.aggregate.files.size).1 = .completed) :
    (n.aggregate.recompute p).2.2.answers = p.answers ∧
      n.update p = deliver n.targets n.published (n.aggregate.recompute p).2.2 := by
  obtain ⟨q, hq, hr⟩ := Aggregate.recompute_stage (Agrees.refl p) n.aggregate
  rw [update, hr, h]
  exact ⟨hq.1.trans (grant_answers _ _), rfl⟩

theorem update_unmerged {n : Network} {p : Progress} (h : (p.grant n.aggregate.files.size).1 = .cancelled) :
    (n.update p).1 = .cancelled ∧ (n.update p).2.1 = n := by
  obtain ⟨q, -, hr⟩ := Aggregate.recompute_stage (Agrees.refl p) n.aggregate
  rw [update, hr, h]
  exact ⟨rfl, rfl⟩

/-- A recompute of the aggregate that is cancelled while it merges changes nothing and calls nobody. One that is not
publishes the union and delivers it, in whatever state the network and its locks are. -/
theorem update_delivers {n : Network} {p : Progress} (hn : n.Calm) (hp : p.Calm) :
    ((p.grant n.aggregate.files.size).1 = .cancelled ∧ (n.update p).1 = .cancelled ∧ (n.update p).2.1 = n) ∨
    ((p.grant n.aggregate.files.size).1 = .completed ∧
      Delivered n (calls n.targets n.published (n.aggregate.recompute p).2.2) (n.update p)) := by
  cases hg : (p.grant n.aggregate.files.size).1 with
  | panicked => exact absurd hg (hp.grant _)
  | cancelled => exact .inl ⟨rfl, update_unmerged hg⟩
  | completed =>
    refine .inr ⟨rfl, ?_⟩
    obtain ⟨hanswers, hr⟩ := update_merged hg
    have hq : (n.aggregate.recompute p).2.2.Calm := hp.of_answers hanswers
    have hdependents : ∀ d ∈ n.published.dependents, d.Calm := hn.dependents
    have haggregate : (n.update p).2.1.aggregate = n.aggregate.publish n.aggregate.files.union := by
      rw [hr, deliver_aggregate]
      rfl
    have hlast := deliver_eq_last n.targets n.published (n.aggregate.recompute p).2.2
    rw [← hr] at hlast
    exact
      { files := by rw [haggregate, Aggregate.publish_files]
        union := by rw [haggregate, Aggregate.publish_union]
        snapshot := by rw [haggregate, Aggregate.publish_published]
        inOrder := calls_prefix _ _ _
        first := fun c hc => (calls_head hc).1
        chained := calls_chain _ _ _
        last := by
          intro c hc
          rw [Option.mem_def.1 hc] at hlast
          exact hlast.symm
        heard := by
          rw [hr, deliver_heard]
          rfl
        ending := by
          cases hending : (n.update p).1 with
          | completed => exact .inl ⟨rfl, calls_all (by rw [← hr, hending])⟩
          | panicked =>
            rw [hr] at hending
            exact absurd hending (deliver_calm hdependents hn.targets hq)
          | cancelled =>
            refine .inr ⟨rfl, fun hnil => ?_⟩
            rw [hnil] at hlast
            rw [hlast] at hending
            cases hending
        realigned := by
          intro i d hd ha hcalls
          refine ⟨d.realigned n.published.aggregate.published, ?_, ?_⟩
          · rw [hr]
            exact (deliver_dependent hdependents hn.targets hq hd).1 hcalls
          · rw [haggregate]
            exact Dependent.realigned_reads ha n.aggregate
        kept := by
          intro i d hd _ hcalls
          rw [hr]
          exact (deliver_dependent hdependents hn.targets hq hd).2 hcalls }

def struckNetwork : Network :=
  let listing := InstructionListing.toListing
    ⟨[⟨⟨0x20, by decide⟩, 4⟩, ⟨⟨0x24, by decide⟩, 2⟩], [], by decide⟩
  let file := RangeFile.ofRanges ⟨"a.cov"⟩ "" [⟨⟨0x20, by decide⟩, ⟨0x25, by decide⟩, by decide⟩]
  (((((ofListing listing).attach.attach).load file).update (.panicAfter 1)).2.1).listen ⟨"late", .accept⟩

theorem update_delivers_past_panic :
    struckNetwork.Calm ∧ (cancelAfter 2).Calm ∧ struckNetwork.dependents.map Dependent.poisoned = [true, false] ∧
      Delivered struckNetwork
        (calls struckNetwork.targets struckNetwork.published (struckNetwork.aggregate.recompute (cancelAfter 2)).2.2)
        (struckNetwork.update (cancelAfter 2)) ∧
      (struckNetwork.update (cancelAfter 2)).1 = .cancelled ∧
      (struckNetwork.update (cancelAfter 2)).2.1.dependents.map (fun d => d.alignment.hits.size) = [2, 0] := by
  have htargets : struckNetwork.targets = [.dependent 0, .dependent 1, .observer ⟨"late", .accept⟩] := rfl
  have hobservers : struckNetwork.dependents.map Dependent.observers = [[], []] := rfl
  have hn : struckNetwork.Calm := by
    constructor
    · intro t ht
      rw [htargets] at ht
      simp only [List.mem_cons, List.not_mem_nil, or_false] at ht
      rcases ht with rfl | rfl | rfl
      · trivial
      · trivial
      · exact Reaction.accept_calm
    · intro d hd o ho
      have hnone := List.mem_map_of_mem (f := Dependent.observers) hd
      rw [hobservers] at hnone
      simp only [List.mem_cons, List.not_mem_nil, or_false, or_self] at hnone
      rw [hnone] at ho
      cases ho
  have hp := cancelAfter_calm 2
  refine ⟨hn, hp, by decide +kernel, ?_, by decide +kernel, by decide +kernel⟩
  rcases update_delivers hn hp with ⟨hg, -⟩ | ⟨-, hdelivered⟩
  · exact absurd hg (by decide +kernel)
  · exact hdelivered

end Network

end InstructionCoverage
