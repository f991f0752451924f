import InstructionCoverage.Model.Aggregate
import Mathlib.Data.List.Pairwise

namespace InstructionCoverage

def Entry.content (e : Entry) : RangeFile × Bool :=
  (e.file, e.enabled)

namespace FileTable

def union (t : FileTable) : List AddressRange :=
  (t.entries.filter Entry.enabled).flatMap fun e => e.file.ranges.toList

def content? (t : FileTable) (p : Path) : Option (RangeFile × Bool) :=
  (t.find? p).map Entry.content

def latest? (fs : List RangeFile) (p : Path) : Option RangeFile :=
  fs.reverse.find? fun f => f.path.key = p.key

theorem key_ne_of_lt {p q : Path} (h : p < q) : p.key ≠ q.key := by
  intro hk
  have hr := Path.rank_eq_iff.2 hk
  exact Path.lt_irrefl q ((Path.lt_of_rank_eq hr).1 h)

theorem find?_insertFile {f : RangeFile} {l : List Entry} (hl : l.Pairwise fun d e => d.path < e.path) (p : Path) :
    ((insertFile f l).find? fun e => e.path.key = p.key) =
      if f.path.key = p.key then
        some ⟨((l.find? fun e => e.path.key = p.key).map Entry.path).getD f.path, f, true⟩
      else l.find? fun e => e.path.key = p.key := by
  induction hl with
  | nil => by_cases h : f.path.key = p.key <;> simp [insertFile, h]
  | @cons e l he hl ih =>
    unfold insertFile
    by_cases hlt : f.path < e.path
    · rw [if_pos hlt, List.find?_cons]
      by_cases h : f.path.key = p.key
      · have habsent : (e :: l).find? (fun d => d.path.key = p.key) = none := by
          apply List.find?_eq_none.2
          intro d hd
          have hfd : f.path < d.path := by
            rcases List.mem_cons.1 hd with rfl | hd
            · exact hlt
            · exact Path.lt_trans hlt (he d hd)
          simpa [← h] using (key_ne_of_lt hfd).symm
        simp [h, habsent]
      · simp [h]
    · rw [if_neg hlt]
      by_cases hk : f.path.key = e.path.key
      · rw [if_pos hk, List.find?_cons, List.find?_cons, hk]
        by_cases h : e.path.key = p.key <;> simp [h]
      · rw [if_neg hk, List.find?_cons, List.find?_cons]
        by_cases h : e.path.key = p.key
        · have hf : ¬ f.path.key = p.key := fun hf => hk (hf.trans h.symm)
          simp [h, hf]
        · simpa [h] using ih

theorem find?_load (t : FileTable) (f : RangeFile) (p : Path) :
    (t.load f).find? p =
      if f.path.key = p.key then some ⟨((t.find? p).map Entry.path).getD f.path, f, true⟩ else t.find? p :=
  find?_insertFile t.ascending p

theorem content?_load (t : FileTable) (f : RangeFile) (p : Path) :
    (t.load f).content? p = if f.path.key = p.key then some (f, true) else t.content? p := by
  rw [content?, content?, find?_load]
  split <;> rfl

theorem content?_loadAll (t : FileTable) (fs : List RangeFile) (p : Path) :
    (fs.foldl load t).content? p = ((latest? fs p).map fun f => (f, true)).or (t.content? p) := by
  induction fs generalizing t with
  | nil => rfl
  | cons f fs ih =>
    rw [List.foldl_cons, ih, content?_load]
    simp only [latest?, List.reverse_cons, List.find?_append, List.find?_singleton, decide_eq_true_eq]
    cases fs.reverse.find? fun g => g.path.key = p.key with
    | some g => rfl
    | none => by_cases h : f.path.key = p.key <;> simp [h]

theorem content?_loadAll_mem {fs : List RangeFile} {f : RangeFile} (h : f ∈ fs) (t : FileTable) :
    ∃ g ∈ fs, g.path.key = f.path.key ∧ (fs.foldl load t).content? f.path = some (g, true) := by
  rw [content?_loadAll]
  cases hl : latest? fs f.path with
  | none =>
    have hn := List.find?_eq_none.1 hl f (List.mem_reverse.2 h)
    simp at hn
  | some g =>
    refine ⟨g, List.mem_reverse.1 (List.mem_of_find?_eq_some hl), ?_, rfl⟩
    simpa using List.find?_some hl

theorem find?_loadAll_other {fs : List RangeFile} {p : Path} (h : ∀ f ∈ fs, f.path.key ≠ p.key) (t : FileTable) :
    (fs.foldl load t).find? p = t.find? p := by
  induction fs generalizing t with
  | nil => rfl
  | cons f fs ih =>
    obtain ⟨hf, hfs⟩ := List.forall_mem_cons.1 h
    rw [List.foldl_cons, ih hfs, find?_load, if_neg hf]

theorem content?_loadAll_other {fs : List RangeFile} {p : Path} (h : ∀ f ∈ fs, f.path.key ≠ p.key) (t : FileTable) :
    (fs.foldl load t).content? p = t.content? p := by
  rw [content?, content?, find?_loadAll_other h]

theorem loadAll_ne_nil {fs : List RangeFile} (h : fs ≠ []) (t : FileTable) : (fs.foldl load t).entries ≠ [] := by
  obtain ⟨f, hf⟩ := List.exists_mem_of_ne_nil fs h
  obtain ⟨g, -, -, hg⟩ := content?_loadAll_mem hf t
  intro he
  rw [content?, find?, he] at hg
  cases hg

theorem find?_congr {p q : Path} (h : p.key = q.key) (t : FileTable) : t.find? p = t.find? q := by
  rw [find?, find?, h]

theorem content?_erase (t : FileTable) (p q : Path) :
    (t.erase p).content? q = if p.key = q.key then none else t.content? q := by
  rw [content?, content?, find?, find?, erase, List.find?_filter]
  by_cases h : p.key = q.key
  · simp [h]
  · have hq (e : Entry) : (e.path.key ≠ p.key ∧ e.path.key = q.key) ↔ e.path.key = q.key :=
      and_iff_right_of_imp fun he hp => h (hp.symm.trans he)
    simp [h, hq]

theorem content?_setEnabled (t : FileTable) (p q : Path) (enabled : Bool) :
    (t.setEnabled p enabled).content? q =
      if p.key = q.key then (t.content? q).map fun c => (c.1, enabled) else t.content? q := by
  rw [content?, content?, find?, find?, setEnabled, List.find?_map]
  have hkey : ((fun e => decide (e.path.key = q.key)) ∘ fun e : Entry =>
      if e.path.key = p.key then { e with enabled := enabled } else e) = fun e => decide (e.path.key = q.key) := by
    funext e
    by_cases h : e.path.key = p.key <;> simp [h]
  rw [hkey]
  cases hf : t.entries.find? fun e => decide (e.path.key = q.key) with
  | none => simp
  | some e =>
    have he : e.path.key = q.key := by simpa using List.find?_some hf
    by_cases h : p.key = q.key <;> simp [h, he, Entry.content, eq_comm]

theorem contains_iff (t : FileTable) (p : Path) :
    t.contains p = true ↔ ∃ f enabled, t.content? p = some (f, enabled) := by
  rw [contains, content?]
  cases t.find? p with
  | none => simp
  | some e => simp [Entry.content]

theorem ne_of_absent {t : FileTable} {p : Path} (h : t.contains p = false) : ∀ e ∈ t.entries, e.path.key ≠ p.key := by
  rw [contains, Option.isSome_eq_false_iff, Option.isNone_iff_eq_none, find?, List.find?_eq_none] at h
  simpa using h

theorem erase_absent {t : FileTable} {p : Path} (h : t.contains p = false) : t.erase p = t := by
  have hentries : t.entries.filter (fun e => e.path.key ≠ p.key) = t.entries :=
    List.filter_eq_self.2 fun e he => by simpa using ne_of_absent h e he
  simp only [erase, hentries]

theorem setEnabled_absent {t : FileTable} {p : Path} (h : t.contains p = false) (enabled : Bool) :
    t.setEnabled p enabled = t := by
  have hentries :
      (t.entries.map fun e => if e.path.key = p.key then { e with enabled := enabled } else e) = t.entries :=
    (List.map_congr_left fun e he => if_neg (ne_of_absent h e he)).trans (List.map_id' _)
  simp only [setEnabled, hentries]

theorem find?_of_pairwise {e : Entry} {l : List Entry} (hl : l.Pairwise fun d e => d.path < e.path) (h : e ∈ l) :
    l.find? (fun d => d.path.key = e.path.key) = some e := by
  induction hl with
  | nil => cases h
  | @cons d l hd hl ih =>
    rw [List.find?_cons]
    rcases List.mem_cons.1 h with rfl | h
    · simp
    · simp [key_ne_of_lt (hd e h), ih h]

theorem find?_of_mem {t : FileTable} {e : Entry} (h : e ∈ t.entries) : t.find? e.path = some e :=
  find?_of_pairwise t.ascending h

theorem mem_of_find? {t : FileTable} {p : Path} {e : Entry} (h : t.find? p = some e) :
    e ∈ t.entries ∧ e.path.key = p.key :=
  ⟨List.mem_of_find?_eq_some h, by simpa using List.find?_some h⟩

def keys (t : FileTable) : List (List Component) :=
  t.entries.map fun e => e.path.key

theorem keys_nodup (t : FileTable) : t.keys.Nodup := by
  rw [keys, List.nodup_iff_pairwise_ne, List.pairwise_map]
  exact t.ascending.imp key_ne_of_lt

theorem contains_iff_mem_keys (t : FileTable) (p : Path) : t.contains p = true ↔ p.key ∈ t.keys := by
  rw [contains, find?, List.find?_isSome, keys, List.mem_map]
  simp

theorem keys_erase (t : FileTable) (p : Path) : (t.erase p).keys = t.keys.erase p.key := by
  have hkept : (fun e : Entry => decide (e.path.key ≠ p.key)) = (· != p.key) ∘ fun e => e.path.key := by
    funext e
    by_cases h : e.path.key = p.key <;> simp [h]
  rw [t.keys_nodup.erase_eq_filter, keys, keys, List.filter_map, ← hkept]
  rfl

theorem ext_find? {t u : FileTable} (h : ∀ p, t.find? p = u.find? p) : t = u := by
  have mem (e : Entry) : e ∈ t.entries ↔ e ∈ u.entries := by
    constructor
    · intro he
      exact (mem_of_find? ((h e.path).symm.trans (find?_of_mem he))).1
    · intro he
      exact (mem_of_find? ((h e.path).trans (find?_of_mem he))).1
  have nodup (v : FileTable) : v.entries.Nodup :=
    List.Pairwise.of_map _ (fun _ _ hne he => hne (congrArg (fun e : Entry => e.path.key) he)) v.keys_nodup
  have hentries : t.entries = u.entries := by
    apply List.Perm.eq_of_pairwise _ t.ascending u.ascending ((List.perm_ext_iff_of_nodup (nodup t) (nodup u)).2 mem)
    intro d e _ _ hde hed
    exact absurd (Path.lt_trans hde hed) (Path.lt_irrefl d.path)
  cases t
  cases u
  cases hentries
  rfl

theorem load_comm {f g : RangeFile} (h : f.path.key ≠ g.path.key) (t : FileTable) :
    (t.load f).load g = (t.load g).load f := by
  apply ext_find?
  intro p
  simp only [find?_load]
  by_cases hf : f.path.key = p.key
  · have hg : g.path.key ≠ p.key := fun hg => h (hf.trans hg.symm)
    simp [hf, hg]
  · simp [hf]

theorem loadAll_perm {fs gs : List RangeFile} (h : fs.Perm gs)
    (hkeys : fs.Pairwise fun f g => f.path.key ≠ g.path.key) (t : FileTable) :
    fs.foldl load t = gs.foldl load t := by
  have : Std.Symm fun f g : RangeFile => f.path.key ≠ g.path.key := ⟨fun _ _ hne => hne.symm⟩
  apply h.foldl_eq'
  intro f hf g hg u
  by_cases he : f = g
  · rw [he]
  · exact load_comm (hkeys.forall hf hg he) u

theorem mem_union {t : FileTable} {r : AddressRange} :
    r ∈ t.union ↔ ∃ p f, t.content? p = some (f, true) ∧ r ∈ f.ranges := by
  simp only [union, List.mem_flatMap, List.mem_filter, content?, Option.map_eq_some_iff]
  constructor
  · rintro ⟨e, ⟨he, henabled⟩, hr⟩
    exact ⟨e.path, e.file, ⟨e, find?_of_mem he, by rw [Entry.content, henabled]⟩, hr⟩
  · rintro ⟨p, f, ⟨e, he, hc⟩, hr⟩
    obtain ⟨rfl, henabled⟩ := Prod.ext_iff.1 hc
    exact ⟨e, ⟨(mem_of_find? he).1, henabled⟩, hr⟩

def contents (t : FileTable) : List (RangeFile × Bool) :=
  t.entries.map Entry.content

theorem statuses_eq (t : FileTable) : t.statuses = t.contents.map fun c => c.1.status c.2 := by
  rw [statuses, contents, List.map_map]
  rfl

theorem union_eq (t : FileTable) : t.union = (t.contents.filter Prod.snd).flatMap fun c => c.1.ranges.toList := by
  rw [union, contents, List.filter_map, List.flatMap_map]
  rfl

def Keyed (t : FileTable) : Prop :=
  ∀ e ∈ t.entries, e.path.key = e.file.path.key

theorem keyed_insertFile {f : RangeFile} {l : List Entry} (h : ∀ e ∈ l, e.path.key = e.file.path.key) :
    ∀ e ∈ insertFile f l, e.path.key = e.file.path.key := by
  induction l with
  | nil => simp [insertFile]
  | cons d l ih =>
    obtain ⟨hd, hl⟩ := List.forall_mem_cons.1 h
    unfold insertFile
    by_cases hlt : f.path < d.path
    · rw [if_pos hlt]
      exact List.forall_mem_cons.2 ⟨rfl, h⟩
    · rw [if_neg hlt]
      by_cases hk : f.path.key = d.path.key
      · rw [if_pos hk]
        exact List.forall_mem_cons.2 ⟨hk.symm, hl⟩
      · rw [if_neg hk]
        exact List.forall_mem_cons.2 ⟨hd, ih hl⟩

theorem Keyed.load {t : FileTable} (h : t.Keyed) (f : RangeFile) : (t.load f).Keyed :=
  keyed_insertFile h

theorem Keyed.erase {t : FileTable} (h : t.Keyed) (p : Path) : (t.erase p).Keyed :=
  fun e he => h e (List.mem_filter.1 he).1

theorem Keyed.setEnabled {t : FileTable} (h : t.Keyed) (p : Path) (enabled : Bool) :
    (t.setEnabled p enabled).Keyed := by
  intro e he
  obtain ⟨d, hd, rfl⟩ := List.mem_map.1 he
  have hkey := h d hd
  by_cases hp : d.path.key = p.key
  · rw [if_pos hp]
    exact hkey
  · rw [if_neg hp]
    exact hkey

theorem Keyed.mem_contents {t : FileTable} (h : t.Keyed) (f : RangeFile) (enabled : Bool) :
    (f, enabled) ∈ t.contents ↔ t.content? f.path = some (f, enabled) := by
  rw [contents, List.mem_map, content?, Option.map_eq_some_iff]
  constructor
  · rintro ⟨e, he, hc⟩
    cases hc
    exact ⟨e, by rw [← find?_congr (h e he), find?_of_mem he], rfl⟩
  · rintro ⟨e, he, hc⟩
    exact ⟨e, (mem_of_find? he).1, hc⟩

theorem Keyed.contents_ascending {t : FileTable} (h : t.Keyed) :
    t.contents.Pairwise fun c d => c.1.path < d.1.path := by
  rw [contents, List.pairwise_map]
  refine t.ascending.imp_of_mem ?_
  intro d e hd he hlt
  have hrank (e : Entry) (he : e ∈ t.entries) : e.path.rank = e.file.path.rank := Path.rank_eq_iff.2 (h e he)
  rwa [Path.lt_def, hrank d hd, hrank e he] at hlt

end FileTable

namespace Aggregate

@[simp] theorem loadAll_files (a : Aggregate) (fs : List RangeFile) :
    (a.loadAll fs).files = fs.foldl FileTable.load a.files := by
  induction fs generalizing a with
  | nil => rfl
  | cons f fs ih => exact ih (a.load f)

theorem loadAll_eq (a : Aggregate) {fs : List RangeFile} (h : fs ≠ []) :
    a.loadAll fs = { a with files := fs.foldl FileTable.load a.files, state := .loaded } := by
  induction fs generalizing a with
  | nil => exact absurd rfl h
  | cons f fs ih =>
    cases fs with
    | nil => rfl
    | cons g fs => exact ih (a.load f) (by simp)

end Aggregate

end InstructionCoverage
