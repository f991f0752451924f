import InstructionCoverage.Text.Hex
import Mathlib.Data.List.Induction

namespace InstructionCoverage.Hex

def cased (upper : Nat → Bool) (cs : List Char) : List Char :=
  cs.mapIdx fun i c => if upper i then c.toUpper else c

theorem cased_lower (cs : List Char) : cased (fun _ => false) cs = cs :=
  List.ext_getElem List.length_mapIdx (by simp [cased])

theorem extend?_append (n : Nat) (cs ds : List Char) :
    extend? n (cs ++ ds) = (extend? n cs).bind fun m => extend? m ds := by
  induction cs generalizing n with
  | nil => rfl
  | cons c cs ih =>
    rw [List.cons_append, extend?, extend?]
    cases digit? c with
    | none => rfl
    | some d => exact ih _

theorem extend?_zeros (k : Nat) (cs : List Char) : extend? 0 (List.replicate k '0' ++ cs) = extend? 0 cs := by
  induction k with
  | zero => rfl
  | succ k ih =>
    rw [List.replicate_succ, List.cons_append, extend?]
    exact ih

theorem digit?_cased : ∀ d < 16, ∀ upper : Bool,
    digit? (if upper then (digitChar d).toUpper else digitChar d) = some d := by
  decide

theorem extend?_cased (upper : Nat → Bool) (n : Nat) : extend? 0 (cased upper (digits n)) = some n := by
  induction n using digits.induct with
  | case1 n hn =>
    rw [digits, if_pos hn]
    simp [cased, extend?, digit?_cased n hn]
  | case2 n hn ih =>
    have hlast : n % 16 < 16 := Nat.mod_lt _ (by decide)
    rw [cased] at ih
    rw [digits, if_neg hn, cased, List.mapIdx_concat, extend?_append, ih, Option.bind_some]
    simp only [extend?, digit?_cased _ hlast, Nat.div_add_mod']

theorem value?_eq_extend? {cs : List Char} (h : cs ≠ []) : value? cs = extend? 0 cs := by
  cases cs with
  | nil => exact absurd rfl h
  | cons c cs => rfl

theorem digits_ne_nil (n : Nat) : digits n ≠ [] := by
  rw [digits]
  split <;> simp

theorem toNat_of_digit? {c : Char} {d : Nat} (h : digit? c = some d) :
    0x30 ≤ c.toNat ∧ c.toNat ≤ 0x39 ∨ 0x61 ≤ c.toNat ∧ c.toNat ≤ 0x66 ∨ 0x41 ≤ c.toNat ∧ c.toNat ≤ 0x46 := by
  rw [digit?] at h
  split at h
  · rename_i hc
    exact .inl hc
  · split at h
    · rename_i hc
      exact .inr (.inl hc)
    · split at h
      · rename_i hc
        exact .inr (.inr hc)
      · cases h

theorem digit_of_extend? {n m : Nat} {cs : List Char} (h : extend? n cs = some m) :
    ∀ c ∈ cs, (digit? c).isSome := by
  induction cs generalizing n with
  | nil => simp
  | cons c cs ih =>
    rw [extend?] at h
    cases hc : digit? c with
    | none => simp [hc] at h
    | some d =>
      rw [hc] at h
      exact List.forall_mem_cons.2 ⟨by rw [hc]; rfl, ih h⟩

def Digit (c : Char) (d : Nat) : Prop :=
  d < 16 ∧ (c = digitChar d ∨ c = (digitChar d).toUpper)

instance (c : Char) (d : Nat) : Decidable (Digit c d) := by
  unfold Digit
  infer_instance

inductive Spells : List Char → Nat → Prop
  | digit {c : Char} {d : Nat} (h : Digit c d) : Spells [c] d
  | append {cs : List Char} {n : Nat} {c : Char} {d : Nat} (front : Spells cs n) (last : Digit c d) :
      Spells (cs ++ [c]) (n * 16 + d)

theorem digit_ofNat : ∀ k < 0x80, ∀ d ∈ digit? (Char.ofNat k), Digit (Char.ofNat k) d := by
  decide

theorem digit?_eq_some {c : Char} {d : Nat} : digit? c = some d ↔ Digit c d := by
  constructor
  · intro h
    have hc := toNat_of_digit? h
    rw [← Char.ofNat_toNat c] at h ⊢
    exact digit_ofNat c.toNat (by omega) d h
  · rintro ⟨hd, rfl | rfl⟩
    · exact digit?_cased d hd false
    · exact digit?_cased d hd true

theorem extend?_singleton {n m : Nat} {c : Char} : extend? n [c] = some m ↔ ∃ d, Digit c d ∧ n * 16 + d = m := by
  simp only [extend?, ← digit?_eq_some]
  cases digit? c <;> simp

theorem value?_eq_some {cs : List Char} {n : Nat} : value? cs = some n ↔ Spells cs n := by
  constructor
  · intro h
    induction cs using List.reverseRecOn generalizing n with
    | nil => cases h
    | append_singleton cs c ih =>
      rw [value?_eq_extend? (by simp), extend?_append] at h
      obtain ⟨m, hm, hlast⟩ := Option.bind_eq_some_iff.1 h
      obtain ⟨d, hd, rfl⟩ := extend?_singleton.1 hlast
      by_cases hcs : cs = []
      · subst hcs
        cases hm
        rw [Nat.zero_mul, Nat.zero_add]
        exact .digit hd
      · exact .append (ih (value?_eq_extend? hcs ▸ hm)) hd
  · intro h
    induction h with
    | @digit c d hd => exact extend?_singleton.2 ⟨d, hd, by omega⟩
    | @append cs n c d front hd ih =>
      have hcs : cs ≠ [] := by
        rintro rfl
        cases ih
      rw [value?_eq_extend? hcs] at ih
      rw [value?_eq_extend? (by simp), extend?_append, ih]
      exact extend?_singleton.2 ⟨d, hd, rfl⟩

end InstructionCoverage.Hex
