import InstructionCoverage.Model.Alignment
import InstructionCoverage.Proofs.Model.FileTable
import InstructionCoverage.Proofs.Progress

namespace InstructionCoverage

open Progress

namespace Aggregate

theorem merge_stage {p q : Progress} (h : p.Agrees q) (entries : List Entry) (found : List AddressRange) :
    (merge entries found p).1 = (q.grant entries.length).1 ∧
      (merge entries found p).2.2.Agrees (q.grant entries.length).2 ∧
      ((q.grant entries.length).1 = .completed →
        (merge entries found p).2.1 = found ++ (entries.filter Entry.enabled).flatMap fun e => e.file.ranges.toList) := by
  induction entries generalizing p q found with
  | nil => exact ⟨rfl, h, fun _ => by simp [merge]⟩
  | cons e entries ih =>
    rw [merge, List.length_cons]
    by_cases hq : q.poll.1 = .completed
    · have hp : p.poll = (.completed, p.poll.2) := Prod.ext (h.poll.1.trans hq) rfl
      rw [grant_succ_completed hq, hp]
      by_cases he : e.enabled
      · simp only [he, if_true, List.filter_cons_of_pos, List.flatMap_cons, ← List.append_assoc]
        exact ih ((announce_agrees _ _).trans h.poll.2) _
      · simp only [he, if_false, List.filter_cons_of_neg, Bool.false_eq_true, not_false_eq_true]
        exact ih h.poll.2 _
    · have hp : p.poll.1 ≠ .completed := h.poll.1 ▸ hq
      rw [grant_succ_stopped hq]
      split
      · rename_i hp'
        exact absurd (by rw [hp']) hp
      · rename_i stop p' _ hp'
        have hpoll := h.poll
        rw [hp'] at hpoll
        exact ⟨hpoll.1, hpoll.2, fun hc => absurd hc hq⟩

def merged (a : Aggregate) : Ending → Aggregate
  | .completed => a.publish a.files.union
  | _ => a

theorem recompute_stage {p q : Progress} (h : p.Agrees q) (a : Aggregate) :
    ∃ p', p'.Agrees (q.grant a.files.size).2 ∧
      a.recompute p = ((q.grant a.files.size).1, a.merged (q.grant a.files.size).1, p') := by
  obtain ⟨hending, hagrees, hfound⟩ := merge_stage h a.files.entries []
  rw [recompute, FileTable.size]
  cases hm : merge a.files.entries [] p with
  | mk ending found =>
    obtain ⟨found, p'⟩ := found
    rw [hm] at hending hagrees hfound
    dsimp only at hending hagrees hfound
    refine ⟨p', hagrees, ?_⟩
    rw [← hending] at hfound ⊢
    cases ending
    · simp only [hfound rfl, List.nil_append]
      rfl
    · rfl
    · rfl

end Aggregate

namespace Alignment

theorem spans_cons (l : Listing) (r : AddressRange) (ranges : List AddressRange) :
    spans l (r :: ranges) = (l.instructionsWithin r).map Instruction.span ++ spans l ranges := rfl

theorem align_stage (l : Listing) (ranges found : List AddressRange) (p : Progress) :
    (align l ranges found p).1 = (p.grant ranges.length).1 ∧
      (align l ranges found p).2.2 = (p.grant ranges.length).2 ∧
      ((p.grant ranges.length).1 = .completed → (align l ranges found p).2.1 = found ++ spans l ranges) := by
  induction ranges generalizing found p with
  | nil => exact ⟨rfl, rfl, fun _ => by simp [align, spans]⟩
  | cons r ranges ih =>
    rw [align, List.length_cons]
    by_cases hp : p.poll.1 = .completed
    · have hp' : p.poll = (.completed, p.poll.2) := Prod.ext hp rfl
      rw [grant_succ_completed hp, hp', spans_cons, ← List.append_assoc]
      exact ih _ _
    · rw [grant_succ_stopped hp]
      split
      · rename_i hp'
        exact absurd (by rw [hp']) hp
      · rename_i stop p' _ hp'
        rw [hp'] at hp ⊢
        exact ⟨rfl, rfl, fun hc => absurd hc hp⟩

def ofPublished (l : Listing) : Option (List AddressRange) → Alignment
  | none => empty
  | some ranges => ⟨some ranges, some ranges, hitsOf l ranges, .loaded⟩

@[simp] theorem ofPublished_alignedFrom (l : Listing) (published : Option (List AddressRange)) :
    (ofPublished l published).alignedFrom = published := by
  cases published <;> rfl

theorem hitsOf_eq_align (l : Listing) (ranges : List AddressRange) :
    hitsOf l ranges = .ofList (align l ranges [] .unbounded).2.1 := by
  rw [(align_stage l ranges [] .unbounded).2.2 (unbounded_lenient.grant _), List.nil_append, hitsOf]

def distance : Option (List AddressRange) → Nat
  | none => 0
  | some ranges => ranges.length

def followed (l : Listing) (published : Option (List AddressRange)) (a : Alignment) : Ending → Alignment
  | .completed => ofPublished l published
  | .cancelled => a
  | .panicked => { a with ranges := published, state := .loaded }

theorem follow_stage (l : Listing) (published : Option (List AddressRange)) (a : Alignment) (p : Progress) :
    a.follow l published p =
      ((p.grant (distance published)).1, a.followed l published (p.grant (distance published)).1,
        (p.grant (distance published)).2) := by
  cases published with
  | none => rfl
  | some ranges =>
    obtain ⟨hending, hprogress, hfound⟩ := align_stage l ranges [] p
    rw [follow, distance]
    dsimp only [load, rebuild]
    cases hm : align l ranges [] p with
    | mk ending found =>
      obtain ⟨found, q⟩ := found
      rw [hm] at hending hprogress hfound
      dsimp only at hending hprogress hfound
      rw [← hending] at hfound ⊢
      rw [← hprogress]
      cases ending
      · simp only [hfound rfl, List.nil_append]
        rfl
      · rfl
      · rfl

end Alignment

namespace Aggregate

@[simp] theorem publish_files (a : Aggregate) (union : List AddressRange) : (a.publish union).files = a.files := by
  rw [publish]
  split <;> rfl

@[simp] theorem publish_union (a : Aggregate) (union : List AddressRange) : (a.publish union).union = union := by
  rw [publish]
  split <;> rfl

theorem publish_published (a : Aggregate) (union : List AddressRange) :
    (a.publish union).published = if a.files.size = 0 then none else some union := by
  rw [publish, FileTable.size]
  by_cases h : a.files.entries = [] <;> simp [h]

theorem hits_ofPublished (l : Listing) (a : Aggregate) :
    (Alignment.ofPublished l (a.publish a.files.union).published).hits = Alignment.hitsOf l a.files.union := by
  rw [publish]
  split
  · rename_i he
    rw [FileTable.union, List.isEmpty_iff.1 he]
    rfl
  · rfl

end Aggregate

end InstructionCoverage
