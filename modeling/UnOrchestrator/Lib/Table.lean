import UnOrchestrator.Lib.KeyedList

/-!
# Tables with a primary key

A table is a list of rows, in the order they were inserted, no two of which have
the same key. The distinctness travels with the rows: `insert` leaves the table as
it is when the key is taken, and `delete` only drops rows, so neither can break it.

The two membership lemmas say everything a later proof needs about a statement that
was executed.
-/

/-- Rows in insertion order, no two with the same key. -/
structure Table {α κ : Type} (key : α → κ) where
  rows : List α
  distinct : (rows.map key).Nodup

namespace Table

variable {α κ : Type} {key : α → κ}

instance : Membership α (Table key) := ⟨fun t row => row ∈ t.rows⟩

/-- The table that has just been created. -/
def empty : Table key := ⟨[], List.nodup_nil⟩

/-- `insert into`: a row whose primary key is taken violates the constraint, and nothing is
inserted. -/
def insert [DecidableEq κ] (t : Table key) (row : α) : Table key where
  rows := KeyedList.pushNew key t.rows row
  distinct := (KeyedList.pushAll_spec [row] t.distinct).1

/-- `delete from … where condition`. -/
def delete (t : Table key) (condition : α → Bool) : Table key where
  rows := t.rows.filter (fun row => !condition row)
  distinct := t.distinct.sublist (List.filter_sublist.map key)

/-- `select count(*) from … where condition` is not zero. -/
def any (t : Table key) (condition : α → Bool) : Bool := t.rows.any condition

/-- The first row that `select … where condition` yields. -/
def first (t : Table key) (condition : α → Bool) : Option α := t.rows.find? condition

variable {t : Table key} {row : α}

theorem mem_rows : row ∈ t.rows ↔ row ∈ t := Iff.rfl

@[simp] theorem mem_insert [DecidableEq κ] {new : α} :
    row ∈ t.insert new ↔ row ∈ t ∨ row = new ∧ ∀ old ∈ t, key old ≠ key new := by
  have hfree : (∀ old ∈ t, key old ≠ key new) ↔ key new ∉ t.rows.map key := by
    simp only [List.mem_map, not_exists, not_and]
    exact Iff.rfl
  rw [hfree]
  show row ∈ KeyedList.pushNew key t.rows new ↔ _
  by_cases hnew : key new ∈ t.rows.map key
  · rw [KeyedList.pushNew_of_mem hnew]
    simp only [hnew, not_true_eq_false, and_false, or_false]
    exact Iff.rfl
  · rw [KeyedList.pushNew_of_notMem hnew]
    simp only [hnew, not_false_eq_true, and_true, List.mem_append, List.mem_singleton]
    exact Iff.rfl

variable {condition : α → Bool}

@[simp] theorem mem_delete :
    row ∈ t.delete condition ↔ row ∈ t ∧ condition row = false := by
  show row ∈ t.rows.filter _ ↔ _
  rw [List.mem_filter, Bool.not_eq_true']
  exact Iff.rfl

@[simp] theorem any_eq_true :
    t.any condition = true ↔ ∃ row ∈ t, condition row = true :=
  List.any_eq_true

theorem mem_of_first (h : t.first condition = some row) : row ∈ t ∧ condition row = true :=
  ⟨List.mem_of_find?_eq_some h, List.find?_some h⟩

theorem first_eq_none :
    t.first condition = none ↔ ∀ row ∈ t, condition row = false := by
  show t.rows.find? condition = none ↔ _
  simp only [List.find?_eq_none, Bool.not_eq_true]
  exact Iff.rfl

/-- A second column without repeated values keeps having none when the inserted value is
new. -/
theorem insert_unique [DecidableEq κ] {β : Type} {column : α → β} {new : α} (h : (t.rows.map column).Nodup)
    (hnew : column new ∉ t.rows.map column) :
    ((t.insert new).rows.map column).Nodup := by
  show ((KeyedList.pushNew key t.rows new).map column).Nodup
  by_cases hkey : key new ∈ t.rows.map key
  · rw [KeyedList.pushNew_of_mem hkey]
    exact h
  · rw [KeyedList.pushNew_of_notMem hkey, List.map_append]
    refine List.Nodup.append h (List.nodup_singleton _) ?_
    intro b hb hmem
    exact hnew (List.mem_singleton.mp hmem ▸ hb)

/-- The primary key identifies a row. -/
theorem eq_of_key {row' : α} (h : row ∈ t) (h' : row' ∈ t) (hkey : key row = key row') : row = row' :=
  List.inj_on_of_nodup_map t.distinct h h' hkey

end Table
