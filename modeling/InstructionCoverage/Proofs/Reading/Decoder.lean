import InstructionCoverage.Reading.Decoder
import Mathlib.Data.List.DropRight

namespace InstructionCoverage.LineDecoder

def Blank (cs : List Char) : Prop :=
  ∀ c ∈ cs, isBlank c = true

theorem Blank.dropWhile {cs : List Char} (h : Blank cs) : cs.dropWhile isBlank = [] :=
  List.dropWhile_eq_nil_iff.2 h

section Trim

theorem dropWhile_around {c : Char} (hc : isBlank c = false) (t u : List Char) :
    (t ++ c :: u).dropWhile isBlank = t.dropWhile isBlank ++ c :: u := by
  induction t with
  | nil => simp [hc]
  | cons b t ih =>
    rw [List.cons_append, List.dropWhile_cons, List.dropWhile_cons]
    split
    · exact ih
    · rfl

theorem rdropWhile_around {c : Char} (hc : isBlank c = false) (t u : List Char) :
    (t ++ c :: u).rdropWhile isBlank = t ++ c :: u.rdropWhile isBlank := by
  have hr : (t ++ c :: u).reverse = u.reverse ++ c :: t.reverse := by simp
  rw [List.rdropWhile, hr, dropWhile_around hc]
  simp [List.rdropWhile]

theorem trim_around {c : Char} (hc : isBlank c = false) (t u : List Char) :
    trim (t ++ c :: u) = t.dropWhile isBlank ++ c :: u.rdropWhile isBlank := by
  rw [trim, dropWhile_around hc]
  exact rdropWhile_around hc _ _

theorem trim_left {as : List Char} (h : Blank as) (cs : List Char) : trim (as ++ cs) = trim cs := by
  rw [trim, List.dropWhile_append_of_pos h, trim]

theorem trim_right {bs : List Char} (h : Blank bs) (cs : List Char) : trim (cs ++ bs) = trim cs := by
  rw [trim, trim, List.dropWhile_append]
  split
  · rename_i he
    rw [List.isEmpty_iff.1 he, h.dropWhile]
  · have hb : ∀ c ∈ bs.reverse, isBlank c = true := fun c hc => h c (List.mem_reverse.1 hc)
    rw [List.reverse_append, List.dropWhile_append_of_pos hb]

theorem trim_dropWhile (cs : List Char) : trim (cs.dropWhile isBlank) = trim cs := by
  rw [trim, List.dropWhile_idempotent, trim]

theorem trim_rdropWhile (cs : List Char) : trim (cs.rdropWhile isBlank) = trim cs := by
  have hb : Blank (cs.rtakeWhile isBlank) := fun c hc => List.mem_rtakeWhile_imp hc
  rw [← trim_right hb, List.rdropWhile_append_rtakeWhile]

theorem trim_trim (cs : List Char) : trim (trim cs) = trim cs :=
  (trim_rdropWhile (cs.dropWhile isBlank)).trans (trim_dropWhile cs)

theorem trim_solid {cs : List Char} (h : ∀ c ∈ cs, isBlank c = false) : trim cs = cs := by
  have hl : cs.dropWhile isBlank = cs := by
    cases cs with
    | nil => rfl
    | cons c cs => simp [h c List.mem_cons_self]
  rw [trim, hl]
  apply List.rdropWhile_eq_self_iff.2
  intro hne
  simp [h _ (List.getLast_mem hne)]

theorem trim_blank {cs : List Char} (h : Blank cs) : trim cs = [] := by
  rw [trim, h.dropWhile]
  rfl

theorem mem_of_mem_trim {c : Char} {cs : List Char} (h : c ∈ trim cs) : c ∈ cs :=
  (List.dropWhile_sublist _).subset ((List.rdropWhile_prefix isBlank _).subset h)

theorem head?_trim_ne {c : Char} {cs : List Char} (h : c ∉ cs) : (trim cs).head? ≠ some c :=
  fun hc => h (mem_of_mem_trim (List.mem_of_mem_head? hc))

end Trim

theorem cutAt_append {separator : Char} {t : List Char} (h : separator ∉ t) (u : List Char) :
    cutAt separator (t ++ separator :: u) = some (t, u) := by
  induction t with
  | nil => simp [cutAt]
  | cons c t ih =>
    obtain ⟨hc, ht⟩ := not_or.1 (mt List.mem_cons.2 h)
    rw [List.cons_append, cutAt, if_neg (Ne.symm hc), ih ht]
    rfl

theorem cutAt_eq_none {separator : Char} {cs : List Char} (h : separator ∉ cs) : cutAt separator cs = none := by
  induction cs with
  | nil => rfl
  | cons c cs ih =>
    obtain ⟨hc, hcs⟩ := not_or.1 (mt List.mem_cons.2 h)
    rw [cutAt, if_neg (Ne.symm hc), ih hcs]
    rfl

theorem address_congr {t u : List Char} (h : trim t = trim u) : address t = address u := by
  rw [address, address, h]

section Forms

variable {t u : List Char}

theorem decodeChars_blank {cs : List Char} (h : Blank cs) : decodeChars cs = .ok none := by
  rw [decodeChars, trim_blank h]
  rfl

theorem decodeChars_comment (h : Blank t) (u : List Char) : decodeChars (t ++ '#' :: u) = .ok none := by
  rw [decodeChars, trim_around (by decide), h.dropWhile]
  rfl

theorem decodeChars_ranged {cs : List Char} (he : trim cs ≠ []) (hn : (trim cs).head? ≠ some '#') :
    decodeChars cs =
      match cutAt '-' (trim cs) with
      | some (start, last) => decodeBounds start last
      | none =>
        match cutAt '+' (trim cs) with
        | some (start, size) => decodeSized start size
        | none => (address cs).map fun a => some (AddressRange.single a) := by
  have hs : ¬ ((trim cs).isEmpty || (trim cs).head? == some '#') = true := by simp [he, hn]
  rw [← address_congr (trim_trim cs)]
  exact if_neg hs

theorem decodeChars_bounds (hn : (trim (t ++ '-' :: u)).head? ≠ some '#') (ht : '-' ∉ t) :
    decodeChars (t ++ '-' :: u) = decodeBounds t u := by
  have hc := trim_around (by decide : isBlank '-' = false) t u
  have ht' : '-' ∉ t.dropWhile isBlank := fun h => ht ((List.dropWhile_sublist _).subset h)
  rw [decodeChars_ranged (by simp [hc]) hn, hc, cutAt_append ht']
  dsimp only
  rw [decodeBounds, decodeBounds, address_congr (trim_dropWhile t), address_congr (trim_rdropWhile u)]

theorem decodeChars_sized (hn : (trim (t ++ '+' :: u)).head? ≠ some '#') (ht : '+' ∉ t) (hb : '-' ∉ t ++ '+' :: u) :
    decodeChars (t ++ '+' :: u) = decodeSized t u := by
  have hc := trim_around (by decide : isBlank '+' = false) t u
  have ht' : '+' ∉ t.dropWhile isBlank := fun h => ht ((List.dropWhile_sublist _).subset h)
  have hb' : '-' ∉ trim (t ++ '+' :: u) := fun h => hb (mem_of_mem_trim h)
  rw [decodeChars_ranged (by simp [hc]) hn, cutAt_eq_none hb', hc]
  dsimp only
  rw [cutAt_append ht']
  dsimp only
  rw [decodeSized, decodeSized, address_congr (trim_dropWhile t), address_congr (trim_rdropWhile u)]

theorem decodeChars_single (he : trim t ≠ []) (hn : (trim t).head? ≠ some '#') (hb : '-' ∉ t) (hs : '+' ∉ t) :
    decodeChars t = (address t).map fun a => some (AddressRange.single a) := by
  have hb' : '-' ∉ trim t := fun h => hb (mem_of_mem_trim h)
  have hs' : '+' ∉ trim t := fun h => hs (mem_of_mem_trim h)
  rw [decodeChars_ranged he hn, cutAt_eq_none hb']
  dsimp only
  rw [cutAt_eq_none hs']

end Forms

end InstructionCoverage.LineDecoder
