import Mathlib.Data.List.Perm.Basic

/-! Objects that are allocated, passed around and released. A heap counts how often each of
its objects was released, whether or not that was right; it is accounted for by a list of
holders when every object has one holder or was released once, and not both. -/
namespace H2oTpcc.Ownership

/-- Objects in the order of their allocation, which names them by their position, each with
the number of times it was released. -/
structure Heap (α : Type) where
  cells : List (α × Nat) := []

namespace Heap
variable {α : Type} {heap : Heap α} {value : α} {i j : Nat}

def size (heap : Heap α) : Nat := heap.cells.length

/-- What the object was allocated with. -/
def value? (heap : Heap α) (i : Nat) : Option α := heap.cells[i]?.map Prod.fst

def released (heap : Heap α) (i : Nat) : Nat := (heap.cells[i]?.map Prod.snd).getD 0

/-- The new object is the one at `heap.size`. -/
def alloc (heap : Heap α) (value : α) : Heap α := ⟨heap.cells ++ [(value, 0)]⟩

def release (heap : Heap α) (i : Nat) : Heap α := ⟨heap.cells.modify i (Prod.map id (· + 1))⟩

/-- The object was allocated and not released. -/
def Live (heap : Heap α) (i : Nat) : Prop := i < heap.size ∧ heap.released i = 0

instance : Decidable (heap.Live i) := inferInstanceAs (Decidable (_ ∧ _))

@[simp] theorem size_empty : ({} : Heap α).size = 0 := rfl
@[simp] theorem released_empty : ({} : Heap α).released i = 0 := rfl

@[simp] theorem size_alloc : (heap.alloc value).size = heap.size + 1 := by simp [size, alloc]

@[simp] theorem size_release : (heap.release j).size = heap.size := by simp [size, release]

theorem Live.value? (live : heap.Live i) : ∃ value, heap.value? i = some value := by
  have found : heap.cells[i]? = some (heap.cells.get ⟨i, live.1⟩) := List.getElem?_eq_getElem live.1
  exact ⟨_, congrArg (Option.map Prod.fst) found⟩

theorem value?_alloc_self : (heap.alloc value).value? heap.size = some value := by
  simp [value?, alloc, size]

/-- Objects keep what they were allocated with. -/
theorem value?_alloc {found : α} (old : heap.value? i = some found) :
    (heap.alloc value).value? i = some found := by
  obtain ⟨cell, here, rfl⟩ := Option.map_eq_some_iff.mp old
  obtain ⟨inside, _⟩ := List.getElem?_eq_some_iff.mp here
  simp [value?, alloc, List.getElem?_append_left inside, here]

@[simp] theorem value?_release : (heap.release j).value? i = heap.value? i := by
  simp only [value?, release, List.getElem?_modify]
  cases heap.cells[i]? with
  | none => rfl
  | some cell => by_cases same : j = i <;> simp [same]

@[simp] theorem released_alloc : (heap.alloc value).released i = heap.released i := by
  simp only [released, alloc, List.getElem?_append]
  split
  · rfl
  · rename_i outside
    rw [List.getElem?_eq_none (Nat.le_of_not_lt outside)]
    cases i - heap.cells.length <;> rfl

private theorem released_release (inside : j < heap.size) :
    (heap.release j).released i = heap.released i + if i = j then 1 else 0 := by
  simp only [released, release, List.getElem?_modify]
  by_cases same : j = i
  · subst same
    simp [List.getElem?_eq_getElem (show j < heap.cells.length from inside)]
  · cases heap.cells[i]? <;> simp [same, Ne.symm same]

end Heap

/-- Every object has one holder and was not released, or was released once and has none;
nobody holds what was not allocated. -/
def Accounted {α : Type} (heap : Heap α) (holders : List Nat) : Prop :=
  ∀ i, heap.released i + holders.count i = if i < heap.size then 1 else 0

namespace Accounted
variable {α : Type} {heap : Heap α} {holders holders' : List Nat} {i : Nat}

theorem empty : Accounted ({} : Heap α) [] := fun _ => by simp

theorem perm (accounted : Accounted heap holders) (same : holders.Perm holders') :
    Accounted heap holders' := fun i => by
  rw [← same.count_eq]
  exact accounted i

/-- Who allocates an object holds it, under a name that nobody else has. -/
theorem alloc (accounted : Accounted heap holders) (value : α) :
    Accounted (heap.alloc value) (heap.size :: holders) := by
  intro i
  have before := accounted i
  rw [Heap.released_alloc, Heap.size_alloc, List.count_cons]
  by_cases new : heap.size = i
  · rw [if_neg (by omega)] at before
    rw [if_pos (by simpa using new), if_pos (by omega)]
    omega
  · rw [if_neg (by simpa using new)]
    split at before <;> split <;> omega

theorem inside (accounted : Accounted heap holders) (holds : i ∈ holders) : i < heap.size := by
  have held := List.count_pos_iff.mpr holds
  have sum := accounted i
  split at sum <;> omega

/-- What is held can be used: it was allocated and is not released. -/
theorem live (accounted : Accounted heap holders) (holds : i ∈ holders) : heap.Live i := by
  have held := List.count_pos_iff.mpr holds
  have sum := accounted i
  refine ⟨accounted.inside holds, ?_⟩
  split at sum <;> omega

/-- Who releases an object no longer holds it, and nobody else did. -/
theorem release (accounted : Accounted heap (i :: holders)) : Accounted (heap.release i) holders := by
  intro j
  have before := accounted j
  rw [Heap.released_release (accounted.inside List.mem_cons_self), Heap.size_release]
  by_cases same : j = i
  · subst same
    rw [List.count_cons_self] at before
    rw [if_pos rfl]
    omega
  · rw [List.count_cons_of_ne (Ne.symm same)] at before
    rw [if_neg same]
    omega

/-- Nothing is released twice: what is released is held no more, and each object was allocated
once. -/
theorem released_le_one (accounted : Accounted heap holders) (i : Nat) : heap.released i ≤ 1 := by
  have sum := accounted i
  split at sum <;> omega

/-- What nobody holds any more was released, exactly once: nothing leaks. -/
theorem released_eq_one (accounted : Accounted heap holders) (inside : i < heap.size)
    (unheld : i ∉ holders) : heap.released i = 1 := by
  have sum := accounted i
  rw [List.count_eq_zero.mpr unheld, if_pos inside] at sum
  exact sum

end Accounted

/-! ## Holders among many parties -/

section Parties
variable {ι : Type} {parties : List ι} {party party' : ι} {i : Nat}

/-- What one party holds, apart from what the others hold. -/
theorem holders_split (holds : ι → List Nat) (found : parties[i]? = some party) :
    (parties.flatMap holds).Perm (holds party ++ (parties.eraseIdx i).flatMap holds) := by
  obtain ⟨inside, rfl⟩ := List.getElem?_eq_some_iff.mp found
  exact (List.getElem_cons_eraseIdx_perm inside).symm.flatMap_right holds

/-- When one party changes, what the others hold stays theirs; so the books can be kept party by
party. -/
theorem holders_set (holds : ι → List Nat) (found : parties[i]? = some party) :
    ((parties.set i party').flatMap holds).Perm
      (holds party' ++ (parties.eraseIdx i).flatMap holds) := by
  obtain ⟨inside, _⟩ := List.getElem?_eq_some_iff.mp found
  exact (List.set_perm_cons_eraseIdx inside party').flatMap_right holds

end Parties

end H2oTpcc.Ownership
