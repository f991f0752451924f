namespace InstructionCoverage

section Repeats

variable {α : Type} {same : α → α → Bool}

theorem eraseRepsBy_loop (a : α) (l kept : List α) :
    List.eraseRepsBy.loop same a l kept = kept.reverse ++ (a :: l).eraseRepsBy same := by
  rw [List.eraseRepsBy]
  induction l generalizing a kept with
  | nil => simp [List.eraseRepsBy.loop]
  | cons b l ih =>
    rw [List.eraseRepsBy.loop, List.eraseRepsBy.loop]
    cases same a b with
    | true => exact ih a kept
    | false => simp only [ih b (a :: kept), ih b [a], List.reverse_cons, List.reverse_nil, List.nil_append,
        List.append_assoc]

theorem eraseRepsBy_cons_cons (a b : α) (l : List α) :
    (a :: b :: l).eraseRepsBy same =
      if same a b then (a :: l).eraseRepsBy same else a :: (b :: l).eraseRepsBy same := by
  rw [List.eraseRepsBy, List.eraseRepsBy.loop]
  cases same a b with
  | true => exact eraseRepsBy_loop a l []
  | false => exact eraseRepsBy_loop b l [a]

theorem eraseRepsBy_sublist (l : List α) : (l.eraseRepsBy same).Sublist l := by
  cases l with
  | nil => exact .slnil
  | cons a l =>
    induction l generalizing a with
    | nil => exact .refl _
    | cons b l ih =>
      rw [eraseRepsBy_cons_cons]
      split
      · exact (ih a).trans ((List.sublist_cons_self b l).cons_cons a)
      · exact (ih b).cons_cons a

theorem pairwise_eraseRepsBy {R S : α → α → Prop} (htrans : ∀ a b c, S a b → R b c → S a c)
    (hstep : ∀ a b, R a b → same a b = false → S a b) {l : List α} (h : l.Pairwise R) :
    (l.eraseRepsBy same).Pairwise S := by
  cases l with
  | nil => exact .nil
  | cons a l =>
    induction l generalizing a with
    | nil => exact List.pairwise_singleton S a
    | cons b l ih =>
      obtain ⟨ha, hl⟩ := List.pairwise_cons.1 h
      rw [eraseRepsBy_cons_cons]
      split
      -- The repeated element goes and the one before it stays the last that was kept.
      · exact ih a (.cons (fun c hc => ha c (List.mem_cons_of_mem b hc)) (List.pairwise_cons.1 hl).2)
      · rename_i hab
        have hfirst : S a b := hstep a b (ha b List.mem_cons_self) (Bool.eq_false_iff.2 hab)
        refine .cons ?_ (ih b hl)
        intro c hc
        rcases List.mem_cons.1 ((eraseRepsBy_sublist _).subset hc) with rfl | hc
        · exact hfirst
        · exact htrans a b c hfirst ((List.pairwise_cons.1 hl).1 c hc)

end Repeats

end InstructionCoverage
