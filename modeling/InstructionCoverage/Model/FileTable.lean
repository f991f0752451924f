import InstructionCoverage.RangeFile

namespace InstructionCoverage

/-- A loaded file. `path` is the text its key was first loaded under; the file may carry another text of that key. -/
structure Entry where
  path : Path
  file : RangeFile
  enabled : Bool
  deriving DecidableEq

structure FileStatus where
  path : Path
  digest : String
  ranges : Nat
  enabled : Bool
  deriving DecidableEq

def RangeFile.status (f : RangeFile) (enabled : Bool) : FileStatus :=
  ⟨f.path, f.digest, f.ranges.size, enabled⟩

def Entry.status (e : Entry) : FileStatus :=
  e.file.status e.enabled

namespace Path

instance : LT Path := ⟨fun p q => p.rank < q.rank⟩

instance (p q : Path) : Decidable (p < q) := inferInstanceAs (Decidable (p.rank < q.rank))

theorem lt_def {p q : Path} : p < q ↔ p.rank < q.rank := Iff.rfl

theorem lt_trans {p q r : Path} (h : p < q) (h' : q < r) : p < r :=
  List.lt_trans (α := List Nat) h h'

theorem lt_irrefl (p : Path) : ¬ p < p :=
  List.lt_irrefl p.rank

theorem lt_of_not_lt {p q : Path} (h : ¬ p < q) (hne : p.rank ≠ q.rank) : q < p := by
  by_cases hlt : q < p
  · exact hlt
  · exact absurd (List.le_antisymm hlt h) hne

theorem lt_of_rank_eq {p q r : Path} (h : p.rank = q.rank) : p < r ↔ q < r := by
  rw [lt_def, lt_def, h]

end Path

theorem Component.rank_injective {a b : Component} (h : a.rank = b.rank) : a = b := by
  have toNat_injective : ∀ {x y : Char}, x.toNat = y.toNat → x = y := fun h => Char.toNat_inj.1 h
  cases a <;> cases b <;> simp only [rank, List.cons.injEq, reduceCtorEq, Nat.reduceEqDiff, false_and, true_and,
    and_true] at h <;> try rfl
  rename_i s t
  have hl := List.map_inj_right (fun _ _ => toNat_injective) |>.1 h
  rw [String.toList_inj.1 hl]

theorem Path.rank_eq_iff {p q : Path} : p.rank = q.rank ↔ p.key = q.key := by
  constructor
  · exact fun h => (List.map_inj_right fun _ _ => Component.rank_injective).1 h
  · exact fun h => congrArg (List.map Component.rank) h

structure FileTable where
  entries : List Entry
  ascending : entries.Pairwise fun d e => d.path < e.path
  deriving DecidableEq

namespace FileTable

def empty : FileTable := ⟨[], .nil⟩

def insertFile (f : RangeFile) : List Entry → List Entry
  | [] => [⟨f.path, f, true⟩]
  | e :: rest =>
    if f.path < e.path then ⟨f.path, f, true⟩ :: e :: rest
    else if f.path.key = e.path.key then ⟨e.path, f, true⟩ :: rest
    else e :: insertFile f rest

theorem rank_of_mem_insertFile {f : RangeFile} {e : Entry} {l : List Entry} (h : e ∈ insertFile f l) :
    e.path.rank = f.path.rank ∨ e ∈ l := by
  induction l with
  | nil => simp only [insertFile, List.mem_singleton] at h; exact .inl (by rw [h])
  | cons d rest ih =>
    unfold insertFile at h
    split at h
    · rcases List.mem_cons.1 h with rfl | h
      · exact .inl rfl
      · exact .inr h
    · split at h
      · rename_i hk
        rcases List.mem_cons.1 h with rfl | h
        · exact .inl (Path.rank_eq_iff.2 hk).symm
        · exact .inr (List.mem_cons_of_mem _ h)
      · rcases List.mem_cons.1 h with rfl | h
        · exact .inr List.mem_cons_self
        · exact (ih h).imp_right (List.mem_cons_of_mem _)

theorem pairwise_insertFile {f : RangeFile} {l : List Entry} (h : l.Pairwise fun d e => d.path < e.path) :
    (insertFile f l).Pairwise fun d e => d.path < e.path := by
  induction h with
  | nil => exact .cons (by simp) .nil
  | @cons d rest hd hrest ih =>
    unfold insertFile
    split
    · rename_i hlt
      refine .cons (fun e he => ?_) (.cons hd hrest)
      rcases List.mem_cons.1 he with rfl | he
      · exact hlt
      · exact Path.lt_trans hlt (hd e he)
    · rename_i hnlt
      split
      · exact .cons hd hrest
      · rename_i hne
        refine .cons (fun e he => ?_) ih
        rcases rank_of_mem_insertFile he with he | he
        · have hdf : d.path < f.path := Path.lt_of_not_lt hnlt fun hr => hne (Path.rank_eq_iff.1 hr)
          rw [Path.lt_def, he]
          exact hdf
        · exact hd e he

def load (t : FileTable) (f : RangeFile) : FileTable :=
  ⟨insertFile f t.entries, pairwise_insertFile t.ascending⟩

def find? (t : FileTable) (p : Path) : Option Entry :=
  t.entries.find? fun e => e.path.key = p.key

def erase (t : FileTable) (p : Path) : FileTable :=
  ⟨t.entries.filter fun e => e.path.key ≠ p.key, t.ascending.filter _⟩

def setEnabled (t : FileTable) (p : Path) (enabled : Bool) : FileTable where
  entries := t.entries.map fun e => if e.path.key = p.key then { e with enabled := enabled } else e
  ascending := by
    rw [List.pairwise_map]
    refine t.ascending.imp ?_
    intro d e h
    split <;> split <;> exact h

def contains (t : FileTable) (p : Path) : Bool :=
  (t.find? p).isSome

def size (t : FileTable) : Nat :=
  t.entries.length

def statuses (t : FileTable) : List FileStatus :=
  t.entries.map Entry.status

end FileTable

end InstructionCoverage
