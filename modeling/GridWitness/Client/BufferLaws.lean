import GridWitness.Client.Coordinator

namespace GridWitness.Client

open Server

universe u

variable {Line : Type u} {codec : Codec Line} {py : Python}

@[simp] theorem Codec.item_record (nowIso : String) (r : Captured) :
    codec.item (codec.record nowIso r) = .value r.item := by
  simp [Codec.item, Codec.record, codec.lossless, Captured.item, List.lookup_cons]

/-- What a peek returns comes from the lines, and from none of them only when it is nothing. -/
theorem Codec.items_of_ne_nil {n : Nat} {ls : List Line} {chunk : List Item}
    (h : codec.items n ls = .ok chunk) (hchunk : chunk ≠ []) : ls ≠ [] := by
  rintro rfl
  cases n <;> cases h <;> exact hchunk rfl

/-- What a peek returns stands in the lines. -/
theorem Codec.items_mem {ls : List Line} {n : Nat} {chunk : List Item}
    (h : codec.items n ls = .ok chunk) {item : Item} (hitem : item ∈ chunk) :
    ∃ l ∈ ls, codec.item l = .value item := by
  induction ls generalizing n chunk with
  | nil =>
    cases n <;> cases h <;> cases hitem
  | cons l ls ih =>
    cases n with
    | zero =>
      cases h
      cases hitem
    | succ n =>
      cases hread : codec.item l with
      | value first =>
        simp only [Codec.items, hread] at h
        cases hrest : codec.items n ls with
        | error e =>
          rw [hrest] at h
          cases h
        | ok rest =>
          rw [hrest] at h
          cases h
          rcases List.mem_cons.mp hitem with rfl | hitem
          · exact ⟨l, List.mem_cons_self, hread⟩
          · obtain ⟨l', hl', hvalue⟩ := ih hrest hitem
            exact ⟨l', List.mem_cons_of_mem _ hl', hvalue⟩
      | skipped =>
        simp only [Codec.items, hread] at h
        obtain ⟨l', hl', hvalue⟩ := ih h hitem
        exact ⟨l', List.mem_cons_of_mem _ hl', hvalue⟩
      | raised e =>
        simp only [Codec.items, hread] at h
        cases h

theorem Codec.items_of_readable {ls : List Line} (h : ∀ l ∈ ls, ∃ item, codec.item l = .value item)
    (n : Nat) : ∃ chunk, codec.items n ls = .ok chunk := by
  induction ls generalizing n with
  | nil => cases n <;> exact ⟨[], rfl⟩
  | cons l ls ih =>
    cases n with
    | zero => exact ⟨[], rfl⟩
    | succ n =>
      obtain ⟨item, hitem⟩ := h l List.mem_cons_self
      obtain ⟨chunk, hchunk⟩ := ih (fun l hl => h l (List.mem_cons_of_mem _ hl)) n
      exact ⟨item :: chunk, by simp [Codec.items, hitem, hchunk]⟩

/-- Over readable lines a peek that asks for some returns nothing only when there are none. -/
theorem Codec.items_nil {ls : List Line} {n : Nat}
    (h : ∀ l ∈ ls, ∃ item, codec.item l = .value item) (hnone : codec.items (n + 1) ls = .ok []) :
    ls = [] := by
  cases ls with
  | nil => rfl
  | cons l ls =>
    obtain ⟨item, hitem⟩ := h l List.mem_cons_self
    obtain ⟨chunk, hchunk⟩ := Codec.items_of_readable (fun l hl => h l (List.mem_cons_of_mem _ hl)) n
    simp [Codec.items, hitem, hchunk] at hnone

theorem Codec.fresh_sublist {cutoff : Time} {ls kept : List Line}
    (h : codec.fresh py cutoff ls = .ok kept) : kept.Sublist ls := by
  induction ls generalizing kept with
  | nil =>
    cases h
    exact .slnil
  | cons l ls ih =>
    simp only [Codec.fresh] at h
    split at h
    · split at h
      · exact (ih h).cons l
      · cases hrest : codec.fresh py cutoff ls with
        | error e =>
          rw [hrest] at h
          cases h
        | ok rest =>
          rw [hrest] at h
          cases h
          exact (ih hrest).cons_cons l
    · exact (ih h).cons l
    · cases h

namespace DiskBuffer

variable {b b' : DiskBuffer Line}

@[simp] theorem lines_commit (n : Nat) : (b.commit n).lines = b.lines.drop n := by
  rw [commit]
  split
  · next h =>
    rcases h with rfl | h
    · rfl
    · simp [lines, Option.isNone_iff_eq_none.mp h]
  · rfl

@[simp] theorem lines_append (items : List Captured) (nowIso : String) :
    (b.append codec items nowIso).lines = b.lines ++ items.map (codec.record nowIso) := by
  rw [append]
  split
  · next h => simp [List.isEmpty_iff.mp h]
  · rfl

/-- The newest lines, no more than the cap. -/
def capped (maxRows : Nat) (kept : List Line) : List Line :=
  if maxRows < kept.length then newest maxRows kept else kept

theorem capped_sublist (maxRows : Nat) (kept : List Line) : (capped maxRows kept).Sublist kept := by
  rw [capped]
  split
  · rw [newest]
    split
    · exact List.Sublist.refl kept
    · exact List.drop_sublist _ _
  · exact List.Sublist.refl kept

/-- What a prune leaves in the file. -/
theorem prune_lines (py : Python) (codec : Codec Line) (b : DiskBuffer Line) (now : Time) :
    (b.prune codec py now).map (·.1.lines) =
      (codec.fresh py (now - b.maxAgeH * hour) b.lines).map (capped b.maxRows) := by
  cases hfile : b.file with
  | none => simp [prune, lines, hfile, Codec.fresh, capped, Except.map]
  | some ls =>
    have hlines : b.lines = ls := by rw [lines, hfile, Option.getD_some]
    rw [hlines]
    cases hfresh : codec.fresh py (now - b.maxAgeH * hour) ls with
    | error e => simp [prune, hfile, hfresh, bind, Except.bind, Except.map]
    | ok kept =>
      have hsub := Codec.fresh_sublist hfresh
      simp only [prune, hfile, hfresh, bind, Except.bind, Except.map, capped, Except.ok.injEq]
      split
      · next hmany =>
        rw [if_neg (by simp only; omega)]
        rfl
      · split
        · next hnone =>
          -- what loses no line is the file as it was
          rw [hlines]
          exact (hsub.eq_of_length_le (Nat.le_of_sub_eq_zero hnone)).symm
        · rfl

/-- A prune that drops nothing leaves the file as it is. -/
theorem prune_zero {now : Time} (h : b.prune codec py now = .ok (b', 0)) : b' = b := by
  rw [prune] at h
  split at h
  · cases h
    rfl
  · next lines hfile =>
    cases hfresh : codec.fresh py (now - b.maxAgeH * hour) lines with
    | error e =>
      rw [hfresh] at h
      cases h
    | ok kept =>
      simp only [hfresh, bind, Except.bind, Except.ok.injEq, Prod.mk.injEq] at h
      obtain ⟨hb, hdropped⟩ := h
      rw [if_pos hdropped] at hb
      exact hb.symm

end DiskBuffer

theorem mem_rowsOf {r : Captured} {items : List Item} (h : r.item ∈ items) :
    r.2 ∈ rowsOf r.1 items :=
  List.mem_filterMap.mpr ⟨r.item, h, by simp [Captured.item]⟩

end GridWitness.Client
