import InstructionCoverage.FileSystem

namespace InstructionCoverage

/-- Whatever can be read under two spellings of a path is the same. -/
def FileSystem.Coherent (disk : FileSystem) : Prop :=
  ∀ p q, p.key = q.key → ∀ b c, disk p = .ok b → disk q = .ok c → b = c

def Path.isStep (piece : String) : Bool :=
  piece ≠ "" && piece ≠ "."

def Component.text : Component → String
  | .root => ""
  | .current => "."
  | .parent => ".."
  | .normal name => name

namespace Path

theorem componentOf?_cases (piece : String) :
    isStep piece = false ∧ componentOf? piece = none ∨
      isStep piece = true ∧ ∃ c, componentOf? piece = some c ∧ c.text = piece := by
  unfold componentOf?
  split
  · exact .inl ⟨rfl, rfl⟩
  · exact .inl ⟨rfl, rfl⟩
  · exact .inr ⟨rfl, .parent, rfl, rfl⟩
  · rename_i hempty hdot _
    have hstep : piece ≠ "" ∧ piece ≠ "." := ⟨hempty, hdot⟩
    exact .inr ⟨by simpa [isStep] using hstep, .normal piece, rfl, rfl⟩

theorem steps_filterMap (pieces : List String) :
    ((pieces.filterMap componentOf?).map Component.text).filter isStep = pieces.filter isStep := by
  induction pieces with
  | nil => rfl
  | cons piece rest ih =>
    rcases componentOf?_cases piece with ⟨hstep, hc⟩ | ⟨hstep, c, hc, htext⟩
    · rw [List.filterMap_cons_none hc, List.filter_cons_of_neg (by simp [hstep]), ih]
    · rw [List.filterMap_cons_some hc, List.map_cons, htext, List.filter_cons_of_pos hstep,
        List.filter_cons_of_pos hstep, ih]

theorem steps_key {p : Path} (h : p.isAbsolute = false) :
    (p.key.map Component.text).filter isStep = p.pieces.filter isStep := by
  rw [key]
  split
  · rename_i rest hp
    rw [h, hp, List.filter_cons_of_neg (by decide)]
    exact steps_filterMap rest
  · rename_i rest hp
    rw [hp, List.map_cons, Component.text, List.filter_cons_of_neg (by decide), List.filter_cons_of_neg (by decide)]
    exact steps_filterMap rest
  · exact steps_filterMap _

end Path

namespace FileTree

theorem walk_outside (t : FileTree) (pieces : List String) (bytes : List UInt8) :
    t.walk .outside pieces ≠ .ok (.file bytes) := by
  induction pieces with
  | nil => simp [walk]
  | cons piece rest ih =>
    rw [walk]
    split
    · exact ih
    · simp

theorem walk_steps {t : FileTree} {names pieces : List String} {bytes : List UInt8}
    (h : t.walk (.inside names) pieces = .ok (.file bytes)) :
    t.walk (.inside names) (pieces.filter Path.isStep) = .ok (.file bytes) := by
  induction pieces generalizing names with
  | nil => simp [walk] at h
  | cons piece rest ih =>
    rw [walk] at h
    by_cases hstep : piece = "" ∨ piece = "."
    · rw [if_pos hstep] at h
      rw [List.filter_cons_of_neg (by simpa [Path.isStep] using fun hne => hstep.resolve_left hne)]
      exact ih h
    · rw [if_neg hstep] at h
      rw [List.filter_cons_of_pos (by simpa [Path.isStep] using hstep), walk, if_neg hstep]
      by_cases hparent : piece = ".."
      · rw [if_pos hparent] at h ⊢
        by_cases hroot : names.isEmpty = true
        · rw [if_pos hroot] at h
          exact absurd h (walk_outside t rest bytes)
        · rw [if_neg hroot] at h ⊢
          exact ih h
      · rw [if_neg hparent] at h ⊢
        by_cases hlong : 255 < piece.utf8ByteSize
        · rw [if_pos hlong] at h
          cases h
        · rw [if_neg hlong] at h ⊢
          cases hn : t.node? (names ++ [piece]) with
          | none => rw [hn] at h; cases h
          | some node =>
            rw [hn] at h
            cases node with
            | directory => exact ih h
            | file b =>
              dsimp only at h ⊢
              split at h
              · rename_i hrest
                rw [List.isEmpty_iff.1 hrest]
                exact h
              · cases h

theorem walk_of_read {t : FileTree} {p : Path} {bytes : List UInt8} (h : t.read p = .ok bytes) :
    t.walk (.inside []) ((p.key.map Component.text).filter Path.isStep) = .ok (.file bytes) := by
  have hwalk : t.walk (if p.isAbsolute then .outside else .inside []) p.pieces = .ok (.file bytes) := by
    rw [read] at h
    repeat' split at h
    all_goals cases h
    assumption
  cases ha : p.isAbsolute with
  | true =>
    rw [ha, if_pos rfl] at hwalk
    exact absurd hwalk (walk_outside t _ bytes)
  | false =>
    rw [ha, if_neg (by decide)] at hwalk
    rw [Path.steps_key ha]
    exact walk_steps hwalk

theorem read_coherent (t : FileTree) : FileSystem.Coherent t.read := by
  intro p q hkey b c hp hq
  have hwalk := walk_of_read hp
  rw [hkey, walk_of_read hq] at hwalk
  cases hwalk
  rfl

end FileTree

end InstructionCoverage
