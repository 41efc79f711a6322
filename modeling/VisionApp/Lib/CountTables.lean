import Mathlib.Algebra.GroupWithZero.Nat
import Mathlib.Data.List.Nodup
import Mathlib.Data.List.FinRange

/-!
# Tables of counts

Cells of a square table are counted up one by one. A row then sums to the
number of its cells that were counted, and so does a column.
-/

set_option autoImplicit false

namespace CountTables

def zeros (size : ℕ) : List (List ℕ) := List.replicate size (List.replicate size 0)

def bump (table : List (List ℕ)) (row column : ℕ) : List (List ℕ) :=
  table.modify row fun counts => counts.modify column (· + 1)

def tallied (table : List (List ℕ)) (cells : List (ℕ × ℕ)) : List (List ℕ) :=
  cells.foldl (fun table cell => bump table cell.1 cell.2) table

def total (table : List (List ℕ)) : ℕ := (table.map List.sum).sum

def rowSum (table : List (List ℕ)) (row : ℕ) : ℕ := (table.getD row []).sum

def columnSum (table : List (List ℕ)) (column : ℕ) : ℕ := (table.map fun counts => counts.getD column 0).sum

def Square (size : ℕ) (table : List (List ℕ)) : Prop := table.length = size ∧ ∀ counts ∈ table, counts.length = size

/-! ## One cell -/

/-- A sum grows by as much as its changed part. -/
theorem sum_modify {α : Type} {xs : List α} {i d : ℕ} {f : α → α} {g : α → ℕ} (hi : i < xs.length)
    (hf : ∀ x ∈ xs, g (f x) = g x+d) : ((xs.modify i f).map g).sum = (xs.map g).sum+d := by
  induction xs generalizing i with
  | nil => simp at hi
  | cons x xs ih =>
    cases i with
    | zero =>
      have hx := hf x List.mem_cons_self
      simp only [List.modify_zero_cons, List.map_cons, List.sum_cons, hx]
      omega
    | succ i =>
      have hrest := ih (Nat.lt_of_succ_lt_succ hi) fun y hy => hf y (List.mem_cons_of_mem _ hy)
      simp only [List.modify_succ_cons, List.map_cons, List.sum_cons, hrest]
      omega

theorem mem_modify {α : Type} {xs : List α} {i : ℕ} {f : α → α} {y : α} (h : y ∈ xs.modify i f) :
    ∃ x ∈ xs, y = x ∨ y = f x := by
  induction xs generalizing i with
  | nil => simp at h
  | cons x xs ih =>
    cases i with
    | zero =>
      rcases List.mem_cons.mp h with rfl | h
      · exact ⟨x, by simp, .inr rfl⟩
      · exact ⟨y, by simp [h], .inl rfl⟩
    | succ i =>
      rcases List.mem_cons.mp h with rfl | h
      · exact ⟨y, by simp, .inl rfl⟩
      · obtain ⟨z, hz, heq⟩ := ih h
        exact ⟨z, List.mem_cons_of_mem _ hz, heq⟩

section Bump

variable {size row column : ℕ} {table : List (List ℕ)}

theorem square_zeros (size : ℕ) : Square size (zeros size) := by
  constructor
  · simp [zeros]
  · intro counts hc
    rw [List.eq_of_mem_replicate hc, List.length_replicate]

theorem square_bump (h : Square size table) : Square size (bump table row column) := by
  constructor
  · rw [bump, List.length_modify, h.1]
  · intro counts hc
    obtain ⟨old, hold, rfl | rfl⟩ := mem_modify hc
    · exact h.2 counts hold
    · rw [List.length_modify, h.2 old hold]

theorem sum_counted {counts : List ℕ} (hc : column < counts.length) :
    (counts.modify column (· + 1)).sum = counts.sum+1 := by
  simpa using sum_modify (g := id) hc fun _ _ => rfl

theorem total_bump (h : Square size table) (hr : row < size) (hc : column < size) :
    total (bump table row column) = total table+1 := by
  apply sum_modify (by rwa [h.1])
  intro counts hcounts
  exact sum_counted (by rwa [h.2 counts hcounts])

theorem rowSum_bump (h : Square size table) (hr : row < size) (hc : column < size) (r : ℕ) :
    rowSum (bump table row column) r = rowSum table r+if row = r then 1 else 0 := by
  have hrow : row < table.length := by rwa [h.1]
  unfold rowSum bump
  rw [List.getD_eq_getElem?_getD, List.getD_eq_getElem?_getD, List.getElem?_modify]
  by_cases heq : row = r
  · subst heq
    have hlength : column < table[row].length := by rwa [h.2 _ (List.getElem_mem hrow)]
    simpa [List.getElem?_eq_getElem hrow] using sum_counted hlength
  · simp [heq]

theorem columnSum_bump (h : Square size table) (hr : row < size) (hc : column < size) (c : ℕ) :
    columnSum (bump table row column) c = columnSum table c+if column = c then 1 else 0 := by
  apply sum_modify (by rwa [h.1])
  intro counts hcounts
  have hcolumn : column < counts.length := by rwa [h.2 counts hcounts]
  rw [List.getD_eq_getElem?_getD, List.getD_eq_getElem?_getD, List.getElem?_modify]
  by_cases heq : column = c
  · subst heq
    simp [List.getElem?_eq_getElem hcolumn]
  · simp [heq]

end Bump

/-! ## All of them -/

theorem total_zeros (size : ℕ) : total (zeros size) = 0 := by simp [total, zeros]

theorem rowSum_zeros (size row : ℕ) : rowSum (zeros size) row = 0 := by
  unfold rowSum zeros
  rw [List.getD_eq_getElem?_getD, List.getElem?_replicate]
  split <;> simp

theorem columnSum_zeros (size column : ℕ) : columnSum (zeros size) column = 0 := by
  unfold columnSum zeros
  have hzero : (List.replicate size 0).getD column 0 = 0 := by
    rw [List.getD_eq_getElem?_getD, List.getElem?_replicate]
    split <;> rfl
  rw [List.map_replicate, hzero]
  simp

section Tallied

variable {size : ℕ} {table : List (List ℕ)} {cells : List (ℕ × ℕ)}

/-- What one cell adds to a measure of the table, all cells add one by one. -/
theorem measure_tallied (measure : List (List ℕ) → ℕ) (p : ℕ × ℕ → Prop) [DecidablePred p]
    (hstep : ∀ {table cell}, Square size table → cell.1 < size → cell.2 < size →
      measure (bump table cell.1 cell.2) = measure table+if p cell then 1 else 0)
    (h : Square size table) (hin : ∀ cell ∈ cells, cell.1 < size ∧ cell.2 < size) :
    measure (tallied table cells) = measure table+cells.countP p := by
  induction cells generalizing table with
  | nil => rfl
  | cons cell cells ih =>
    rw [List.forall_mem_cons] at hin
    have hrest : measure (tallied (bump table cell.1 cell.2) cells) =
        measure (bump table cell.1 cell.2)+cells.countP p := ih (square_bump h) hin.2
    rw [List.countP_cons, tallied, List.foldl_cons, ← tallied, hrest, hstep h hin.1.1 hin.1.2]
    simp only [decide_eq_true_eq]
    omega

theorem tallied_append (table : List (List ℕ)) (cells later : List (ℕ × ℕ)) :
    tallied (tallied table cells) later = tallied table (cells ++ later) := by
  unfold tallied
  rw [List.foldl_append]

/-- A loop that counts a cell for each element that passes a test. -/
theorem foldl_tallied {α : Type} (p : α → Prop) [DecidablePred p] (cell : α → ℕ × ℕ) (xs : List α)
    (table : List (List ℕ)) :
    xs.foldl (fun table x => if p x then bump table (cell x).1 (cell x).2 else table) table =
      tallied table ((xs.filter p).map cell) := by
  unfold tallied
  rw [List.foldl_map, List.foldl_filter]
  simp only [decide_eq_true_eq]

theorem total_tallied (h : Square size table) (hin : ∀ cell ∈ cells, cell.1 < size ∧ cell.2 < size) :
    total (tallied table cells) = total table+cells.length := by
  have hall := measure_tallied total (fun _ => True) (fun h hr hc => total_bump h hr hc) h hin
  simpa using hall

theorem rowSum_tallied (h : Square size table) (hin : ∀ cell ∈ cells, cell.1 < size ∧ cell.2 < size) (row : ℕ) :
    rowSum (tallied table cells) row = rowSum table row+cells.countP fun cell => cell.1 = row :=
  measure_tallied (fun table => rowSum table row) (fun cell => cell.1 = row)
    (fun h hr hc => rowSum_bump h hr hc row) h hin

theorem columnSum_tallied (h : Square size table) (hin : ∀ cell ∈ cells, cell.1 < size ∧ cell.2 < size)
    (column : ℕ) :
    columnSum (tallied table cells) column = columnSum table column+cells.countP fun cell => cell.2 = column :=
  measure_tallied (fun table => columnSum table column) (fun cell => cell.2 = column)
    (fun h hr hc => columnSum_bump h hr hc column) h hin

end Tallied

/-! ## Taken positions and the others -/

section Positions

variable {α : Type} {xs : List α} {taken : List (Fin xs.length)}

def untaken (size : ℕ) (taken : List (Fin size)) : List (Fin size) := (List.finRange size).filter (· ∉ taken)

theorem positions_perm {size : ℕ} {taken : List (Fin size)} (h : taken.Nodup) :
    (taken ++ untaken size taken).Perm (List.finRange size) := by
  have htaken : taken.Perm ((List.finRange size).filter (· ∈ taken)) := by
    rw [List.perm_ext_iff_of_nodup h ((List.nodup_finRange size).filter _)]
    simp
  have hsplit := List.filter_append_perm (fun i => decide (i ∈ taken)) (List.finRange size)
  refine (htaken.append_right _).trans ?_
  simpa [untaken] using hsplit

/-- Every element stands at a taken position or at another one. -/
theorem countP_positions (h : taken.Nodup) (p : α → Bool) :
    taken.countP (fun i => p (xs.get i))+(untaken xs.length taken).countP (fun i => p (xs.get i)) = xs.countP p := by
  have hall : (List.finRange xs.length).countP (p ∘ xs.get) = xs.countP p := by
    rw [← List.countP_map, List.map_get_finRange]
  rw [← hall, ← List.countP_append]
  exact (positions_perm h).countP_eq _

end Positions

end CountTables
