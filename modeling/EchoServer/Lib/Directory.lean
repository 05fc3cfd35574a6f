import Mathlib.Data.List.Induction
import Mathlib.Data.List.ModifyLast
import Mathlib.Order.Lattice

/-!
# Directories of append-only files

A directory holds files by name. A write goes to the end of the file of its name,
which is created when it is not there. The directory is read with its files in
the order of their names.

* `reading_ofWrites`: of writes whose names never step back, reading gives all
  that was written, in the order of the writes;
* `reading_cutLast`: where the end of the last write has not come through, that end is
  missing at the end of the reading;
* `map_ofWrites`, `map_listing`: what can be said of the parts of a file can be said
  of the file.
-/

namespace Directory

variable {ν : Type u} {α : Type v} {β : Type w}

/-- Where the values of `g` are those of `f`, the pieces `f` takes them from can be
put under the names. -/
theorem exists_writes {ι : Type x} {γ : Type y} (name : ι → ν) {g : ι → γ} {f : List α → γ}
    {xs : List ι} {pieces : List (List α)} (h : xs.map g = pieces.map f) :
    ∃ writes : List (ν × List α), xs.map (fun x => (name x, g x)) = writes.map (Prod.map id f) ∧
      writes.map Prod.fst = xs.map name ∧ writes.map Prod.snd = pieces := by
  induction xs generalizing pieces with
  | nil =>
    have hnil : pieces = [] := by simpa using h.symm
    exact ⟨[], by simp, by simp, by simp [hnil]⟩
  | cons x xs ih =>
    cases pieces with
    | nil => simp at h
    | cons piece pieces =>
      rw [List.map_cons, List.map_cons, List.cons.injEq] at h
      rcases ih h.2 with ⟨writes, hwrites, hnames, hpieces⟩
      exact ⟨(name x, piece) :: writes, by simp [hwrites, h.1], by simp [hnames],
        by simp [hpieces]⟩

variable [LinearOrder ν]

/-- `data` goes to the end of the file `name`. The files are in the order in
which they were created. -/
def append (name : ν) (data : List α) : List (ν × List α) → List (ν × List α)
  | [] => [(name, data)]
  | (other, content) :: files =>
    if other = name then (other, content ++ data) :: files
    else (other, content) :: append name data files

/-- The directory a list of writes leaves, which was empty before. -/
def ofWrites (writes : List (ν × List α)) : List (ν × List α) :=
  writes.foldl (fun files write => append write.1 write.2 files) []

/-- The files in the order of their names. -/
def listing (files : List (ν × List α)) : List (ν × List α) :=
  files.mergeSort fun a b => decide (a.1 ≤ b.1)

/-- One file after the other, in the order of their names. -/
def reading (files : List (ν × List α)) : List α := (listing files).flatMap Prod.snd

theorem ofWrites_concat (writes : List (ν × List α)) (write : ν × List α) :
    ofWrites (writes ++ [write]) = append write.1 write.2 (ofWrites writes) := by
  rw [ofWrites, List.foldl_append, List.foldl_cons, List.foldl_nil, ofWrites]

/-- A write makes at most one new name. -/
theorem mem_append {name : ν} {data : List α} {files : List (ν × List α)} {file : ν × List α}
    (h : file ∈ append name data files) : file.1 = name ∨ ∃ old ∈ files, old.1 = file.1 := by
  induction files with
  | nil =>
    rw [append, List.mem_singleton] at h
    rw [h]
    exact Or.inl rfl
  | cons first files ih =>
    rcases first with ⟨other, content⟩
    rw [append] at h
    split at h
    · rename_i heq
      rcases List.mem_cons.mp h with rfl | hmem
      · exact Or.inl heq
      · exact Or.inr ⟨file, List.mem_cons_of_mem _ hmem, rfl⟩
    · rcases List.mem_cons.mp h with rfl | hmem
      · exact Or.inr ⟨_, List.mem_cons_self .., rfl⟩
      · rcases ih hmem with hnew | ⟨old, hold, heq⟩
        · exact Or.inl hnew
        · exact Or.inr ⟨old, List.mem_cons_of_mem _ hold, heq⟩

/-- The files were created in the order of their names. -/
def Increasing (files : List (ν × List α)) : Prop := files.Pairwise fun a b => a.1 < b.1

theorem Increasing.listing {files : List (ν × List α)} (h : Increasing files) :
    listing files = files := by
  apply List.mergeSort_of_pairwise
  refine h.imp ?_
  intro a b hlt
  rw [decide_eq_true_iff]
  exact le_of_lt hlt

/-- A write to the last file, or to a new one with a later name, goes to the end of
the directory. -/
theorem Increasing.append {files : List (ν × List α)} (h : Increasing files) {name : ν}
    (hlast : ∀ file ∈ files, file.1 ≤ name) (data : List α) :
    Increasing (append name data files) ∧
      (Directory.append name data files).flatMap Prod.snd = files.flatMap Prod.snd ++ data := by
  induction files with
  | nil => exact ⟨List.pairwise_singleton _ _, by simp [Directory.append]⟩
  | cons first files ih =>
    rcases first with ⟨other, content⟩
    rcases List.pairwise_cons.mp h with ⟨hfirst, hrest⟩
    rw [Directory.append]
    split
    · rename_i heq
      -- no file comes after the one that is written to
      have hnone : files = [] := by
        rw [List.eq_nil_iff_forall_not_mem]
        intro file hfile
        have hle := hlast file (List.mem_cons_of_mem _ hfile)
        exact absurd (hfirst file hfile) (not_lt.mpr (heq ▸ hle))
      rw [hnone]
      exact ⟨List.pairwise_singleton _ _, by simp⟩
    · rename_i hne
      have hother : other < name := lt_of_le_of_ne (hlast _ (List.mem_cons_self ..)) hne
      rcases ih hrest (fun file hfile => hlast file (List.mem_cons_of_mem _ hfile)) with
        ⟨hincreasing, hcontents⟩
      refine ⟨List.pairwise_cons.mpr ⟨?_, hincreasing⟩, ?_⟩
      · intro file hfile
        rcases mem_append hfile with hnew | ⟨old, hold, heq⟩
        · rw [hnew]
          exact hother
        · rw [← heq]
          exact hfirst old hold
      · rw [List.flatMap_cons, hcontents, List.flatMap_cons, List.append_assoc]

theorem mem_ofWrites {writes : List (ν × List α)} {file : ν × List α} (h : file ∈ ofWrites writes) :
    ∃ write ∈ writes, write.1 = file.1 := by
  induction writes using List.reverseRecOn generalizing file with
  | nil => exact absurd h List.not_mem_nil
  | append_singleton writes write ih =>
    rw [ofWrites_concat] at h
    rcases mem_append h with hnew | ⟨old, hold, heq⟩
    · exact ⟨write, by simp, hnew.symm⟩
    · rcases ih hold with ⟨earlier, hearlier, hname⟩
      exact ⟨earlier, List.mem_append_left _ hearlier, hname.trans heq⟩

/-- The names of the writes never step back. -/
def Forward (writes : List (ν × List α)) : Prop := writes.Pairwise fun a b => a.1 ≤ b.1

theorem Forward.ofWrites {writes : List (ν × List α)} (h : Forward writes) :
    Increasing (ofWrites writes) ∧
      (Directory.ofWrites writes).flatMap Prod.snd = writes.flatMap Prod.snd := by
  induction writes using List.reverseRecOn with
  | nil => exact ⟨List.Pairwise.nil, rfl⟩
  | append_singleton writes write ih =>
    rcases List.pairwise_append.mp h with ⟨hbefore, _, hlast⟩
    rcases ih hbefore with ⟨hincreasing, hcontents⟩
    have hlater : ∀ file ∈ Directory.ofWrites writes, file.1 ≤ write.1 := by
      intro file hfile
      rcases mem_ofWrites hfile with ⟨earlier, hearlier, hname⟩
      rw [← hname]
      exact hlast earlier hearlier write (List.mem_singleton_self write)
    rcases hincreasing.append hlater write.2 with ⟨hnext, happended⟩
    rw [ofWrites_concat]
    refine ⟨hnext, ?_⟩
    rw [happended, hcontents, List.flatMap_append]
    simp

/-- What has been written comes back in the order of the writes. -/
theorem reading_ofWrites {writes : List (ν × List α)} (h : Forward writes) :
    reading (ofWrites writes) = writes.flatMap Prod.snd := by
  rw [reading, h.ofWrites.1.listing, h.ofWrites.2]

/-! ## A write that has not come through -/

section
omit [LinearOrder ν]

/-- The last write lacks its last `n` values. -/
def cutLast (n : Nat) (writes : List (ν × List α)) : List (ν × List α) :=
  writes.modifyLast (Prod.map id fun data => data.take (data.length - n))

def lastLength (writes : List (ν × List α)) : Nat :=
  (writes.getLast?.map fun write => write.2.length).getD 0

/-- The names are the same, and the values are missing at the end. -/
theorem exists_missing {n : Nat} {writes : List (ν × List α)} (h : n ≤ lastLength writes) :
    ∃ missing : List α, missing.length = n ∧
      (cutLast n writes).flatMap Prod.snd ++ missing = writes.flatMap Prod.snd ∧
      (cutLast n writes).map Prod.fst = writes.map Prod.fst := by
  rcases List.eq_nil_or_concat writes with rfl | ⟨before, last, rfl⟩
  · have hnone : n = 0 := Nat.le_zero.mp h
    exact ⟨[], hnone.symm, rfl, rfl⟩
  · rw [List.concat_eq_append] at h ⊢
    have hlength : n ≤ last.2.length := by simpa [lastLength] using h
    refine ⟨last.2.drop (last.2.length - n), ?_, ?_, ?_⟩
    · rw [List.length_drop]
      omega
    · rw [cutLast, List.modifyLast_concat]
      simp
    · rw [cutLast, List.modifyLast_concat]
      simp

end

theorem reading_cutLast {n : Nat} {writes : List (ν × List α)} (hforward : Forward writes)
    (h : n ≤ lastLength writes) : ∃ missing : List α, missing.length = n ∧
      reading (ofWrites (cutLast n writes)) ++ missing = writes.flatMap Prod.snd := by
  rcases exists_missing h with ⟨missing, hlength, hall, hnames⟩
  have hcut : Forward (cutLast n writes) := by
    have hsorted : (writes.map Prod.fst).Pairwise (· ≤ ·) := List.pairwise_map.mpr hforward
    rw [← hnames] at hsorted
    exact List.pairwise_map.mp hsorted
  refine ⟨missing, hlength, ?_⟩
  rw [reading_ofWrites hcut]
  exact hall

/-! ## Files of parts -/

section
variable {f : List α → List β}

theorem map_append (hf : ∀ a b, f (a ++ b) = f a ++ f b) (name : ν) (data : List α)
    (files : List (ν × List α)) :
    (append name data files).map (Prod.map id f) =
      append name (f data) (files.map (Prod.map id f)) := by
  induction files with
  | nil => rfl
  | cons first files ih =>
    rcases first with ⟨other, content⟩
    rw [append]
    split
    · rename_i heq
      simp [append, heq, hf]
    · rename_i hne
      simp [append, hne, ih]

theorem map_ofWrites (hf : ∀ a b, f (a ++ b) = f a ++ f b) (writes : List (ν × List α)) :
    (ofWrites writes).map (Prod.map id f) = ofWrites (writes.map (Prod.map id f)) := by
  induction writes using List.reverseRecOn with
  | nil => rfl
  | append_singleton writes write ih =>
    rw [ofWrites_concat, map_append hf, ih, List.map_append, List.map_singleton, ofWrites_concat]
    rfl

theorem map_listing (files : List (ν × List α)) :
    (listing files).map (Prod.map id f) = listing (files.map (Prod.map id f)) := by
  unfold listing
  apply List.map_mergeSort
  intro a _ b _
  rfl

end

end Directory
