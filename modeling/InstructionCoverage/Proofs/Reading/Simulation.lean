import InstructionCoverage.Proofs.Reading.Lines

namespace InstructionCoverage.Source

structure Follows (report : LineError → LineError) (R : Source → Source → Prop) : Prop where
  position : ∀ {s t}, R s t → t.position = s.position
  byte : ∀ {s s' t b}, R s t → s.next = .ok (b, s') → ∃ t', t.next = .ok (b, t') ∧ R s' t'
  failure : ∀ {s t e}, R s t → s.next = .error e → t.next = .error (report e)
  invalid : ∀ offset b, report (.invalidByte offset b) = .invalidByte offset b

section Follows

variable {report : LineError → LineError} {R : Source → Source → Prop} {s t : Source}

theorem Follows.readChars (h : Follows report R) (hst : R s t) :
    ∃ t', t.readChars = (s.readChars.1.mapError report, t') ∧ R s.readChars.2 t' := by
  fun_induction Source.readChars s generalizing t with
  | case1 s e hs => exact ⟨t, readChars_of_error (h.failure hst hs), hst⟩
  | case2 s s' hs =>
    obtain ⟨t', ht, hst'⟩ := h.byte hst hs
    rw [readChars_of_next ht, if_pos rfl]
    exact ⟨t', rfl, hst'⟩
  | case3 s b s' hs hb hp line u hu ih =>
    obtain ⟨t', ht, hst'⟩ := h.byte hst hs
    obtain ⟨v, hv, hrest⟩ := ih hst'
    rw [hu] at hv hrest
    rw [readChars_of_next ht, if_neg hb, if_pos hp, hv]
    exact ⟨v, rfl, hrest⟩
  | case4 s b s' hs hb hp e u hu ih =>
    obtain ⟨t', ht, hst'⟩ := h.byte hst hs
    obtain ⟨v, hv, hrest⟩ := ih hst'
    rw [hu] at hv hrest
    rw [readChars_of_next ht, if_neg hb, if_pos hp, hv]
    exact ⟨v, rfl, hrest⟩
  | case5 s b s' hs hb hp =>
    obtain ⟨t', ht, hst'⟩ := h.byte hst hs
    rw [readChars_of_next ht, if_neg hb, if_neg hp, h.position hst]
    refine ⟨t', ?_, hst'⟩
    change (Except.error _, t') = (Except.error (report (.invalidByte s.position b)), t')
    rw [h.invalid]

theorem Follows.readLine (h : Follows report R) (hst : R s t) {result : Except LineError String} {s' : Source}
    (hs : s.readLine = (result, s')) : ∃ t', t.readLine = (result.mapError report, t') ∧ R s' t' := by
  obtain ⟨t', ht, hst'⟩ := h.readChars hst
  rw [Source.readLine] at hs
  rw [Source.readLine, ht]
  cases hc : s.readChars with
  | mk chars u =>
    rw [hc] at hs hst'
    cases chars with
    | ok line =>
      cases hs
      exact ⟨t', rfl, hst'⟩
    | error e =>
      cases hs
      exact ⟨t', rfl, hst'⟩

end Follows

end InstructionCoverage.Source
