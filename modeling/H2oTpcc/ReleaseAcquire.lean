import Mathlib.Data.Fintype.Defs
import Mathlib.Logic.Function.Basic
import Mathlib.Order.Lattice

/-! Memory with relaxed, acquire and release accesses, told by views, for locations that
have one writer each.

A location keeps the messages of all its stores, and a load may take any message that is
not older than what its thread has seen. A release store puts what its thread has seen
into the message, and an acquire load takes it over. A plain access races if it
conflicts with one that its thread has not seen. Since a location has one writer, a store
always goes to the end. Fences and read-modify-writes are left out, and so are loads that
see stores which have not happened yet. -/
namespace H2oTpcc
namespace ReleaseAcquire

inductive MemoryOrder where
  | relaxed
  | acquire
  | release
  deriving DecidableEq

/-- What is seen: so many plain accesses of each thread, and the messages of each location
up to this one. -/
abbrev View (T L : Type) := T ⊕ L → Nat

structure Message (T L V : Type) where
  value : V
  view : View T L

/-- A plain access. -/
inductive Access where
  | read
  | write
  deriving DecidableEq

/-- The memory of the threads `T`, with locations `L` that are accessed atomically and
cells `X` that are not. -/
structure Memory (T L V X A : Type) where
  messages : L → List (Message T L V)
  cell : X → A
  /-- When a thread last read or wrote a cell, in the count of its plain accesses. -/
  accesses : Access → X → T → Nat
  view : T → View T L
  raced : X → Bool

namespace Memory
variable {T L V X A : Type}

/-- The memory that all threads have seen. -/
def initial (value : L → V) (cell : X → A) : Memory T L V X A where
  messages ℓ := [{ value := value ℓ, view := fun _ => 0 }]
  cell
  accesses _ _ _ := 0
  view _ _ := 0
  raced _ := false

/-- No conflicting access to the cell is one that the thread has not seen. -/
def Unraced (memory : Memory T L V X A) (kind : Access) (t : T) (x : X) : Prop :=
  (∀ u, memory.accesses .write x u ≤ memory.view t (.inl u)) ∧
    (kind = .write → ∀ u, memory.accesses .read x u ≤ memory.view t (.inl u))

instance [Fintype T] (memory : Memory T L V X A) (kind : Access) (t : T) (x : X) :
    Decidable (memory.Unraced kind t x) :=
  inferInstanceAs (Decidable (_ ∧ _))

/-- All that can be seen. -/
def now (memory : Memory T L V X A) : View T L :=
  Sum.elim (fun u => memory.view u (.inl u)) (fun ℓ => (memory.messages ℓ).length - 1)

/-- Nothing is seen that has not happened, and a writer has seen its own stores. -/
structure Coherent (owner : L → T) (memory : Memory T L V X A) : Prop where
  seen : ∀ t, memory.view t ≤ memory.now
  told : ∀ {ℓ : L} {i : Nat} {message : Message T L V},
    (memory.messages ℓ)[i]? = some message → message.view ≤ memory.view (owner ℓ)
  place : ∀ {ℓ : L} {i : Nat} {message : Message T L V},
    (memory.messages ℓ)[i]? = some message → message.view (.inr ℓ) ≤ i
  made : ∀ kind x u, memory.accesses kind x u ≤ memory.view u (.inl u)
  own : ∀ ℓ, (memory.messages ℓ).length = memory.view (owner ℓ) (.inr ℓ) + 1

/-- The view covers what the thread has done to the cell. -/
def Covers (memory : Memory T L V X A) (view : View T L) (t : T) (x : X) : Prop :=
  ∀ kind, memory.accesses kind x t ≤ view (.inl t)

theorem Covers.mono {memory : Memory T L V X A} {view view' : View T L}
    (covers : memory.Covers view t x) (le : view ≤ view') : memory.Covers view' t x :=
  fun kind => Nat.le_trans (covers kind) (le (.inl t))

/-- A thread that has seen all that was done to a cell may access it. -/
theorem unraced_of_covers {memory : Memory T L V X A}
    (covers : ∀ u, memory.Covers (memory.view t) u x) (kind : Access) : memory.Unraced kind t x :=
  ⟨fun u => covers u .write, fun _ u => covers u .read⟩

section Coherence
variable {owner : L → T} {memory : Memory T L V X A}

/-- A fresh memory is coherent: every thread has seen the one message of every location, and
there were no accesses. -/
theorem coherent_initial (value : L → V) (cell : X → A) :
    (initial value cell : Memory T L V X A).Coherent owner where
  seen _ := fun _ => Nat.zero_le _
  told found := by
    obtain ⟨_, rfl⟩ := List.getElem?_eq_some_iff.mp found
    intro place
    simp [initial]
  place found := by
    obtain ⟨_, rfl⟩ := List.getElem?_eq_some_iff.mp found
    simp [initial]
  made _ _ _ := Nat.zero_le _
  own _ := rfl

/-- Nobody is ahead of the owner of a location. -/
theorem Coherent.view_le (coherent : memory.Coherent owner) (t : T) (ℓ : L) :
    memory.view t (.inr ℓ) ≤ memory.view (owner ℓ) (.inr ℓ) := by
  have seen : memory.view t (.inr ℓ) ≤ (memory.messages ℓ).length - 1 := coherent.seen t (.inr ℓ)
  have own := coherent.own ℓ
  omega

/-- Every thread has seen its own accesses. -/
theorem Coherent.covers_self (coherent : memory.Coherent owner) (t : T) (x : X) :
    memory.Covers (memory.view t) t x :=
  fun kind => coherent.made kind x t

end Coherence

variable [DecidableEq T]

/-! ## Loads -/

section Load
variable [DecidableEq L]

/-- What a thread has seen once it has taken this message. -/
def seeing (memory : Memory T L V X A) (t : T) (ℓ : L) (order : MemoryOrder) (i : Nat)
    (message : Message T L V) : View T L :=
  let seen := Function.update (memory.view t) (.inr ℓ) i
  if order = .acquire then seen ⊔ message.view else seen

/-- A load that takes the message at `i`. -/
def load (memory : Memory T L V X A) (t : T) (ℓ : L) (order : MemoryOrder) (i : Nat) :
    Option (V × Memory T L V X A) :=
  if memory.view t (.inr ℓ) ≤ i then
    (memory.messages ℓ)[i]?.map fun message => (message.value,
      { memory with view := Function.update memory.view t (memory.seeing t ℓ order i message) })
  else none

variable {owner : L → T} {memory memory' : Memory T L V X A}

/-- What a load can do: it takes a message that the thread has not passed yet, and the thread
has then seen it, with what it carries if the load acquires. -/
theorem load_cases (loaded : memory.load t ℓ order i = some (value, memory')) :
    memory.view t (.inr ℓ) ≤ i ∧ ∃ message, (memory.messages ℓ)[i]? = some message ∧
      value = message.value ∧
      memory' = { memory with
        view := Function.update memory.view t (memory.seeing t ℓ order i message) } := by
  unfold load at loaded
  split at loaded
  · rename_i current
    obtain ⟨message, found, same⟩ := Option.map_eq_some_iff.mp loaded
    cases same
    exact ⟨current, message, found, rfl, rfl⟩
  · cases loaded

theorem le_seeing (current : memory.view t (.inr ℓ) ≤ i) (order : MemoryOrder)
    (message : Message T L V) :
    memory.view t ≤ memory.seeing t ℓ order i message := by
  have base : memory.view t ≤ Function.update (memory.view t) (.inr ℓ) i := by
    intro place
    by_cases here : place = .inr ℓ
    · subst here
      simpa using current
    · simp [here]
  unfold seeing
  split
  · exact le_sup_of_le_left base
  · exact base

theorem le_load_view (loaded : memory.load t ℓ order i = some (value, memory')) (u : T) :
    memory.view u ≤ memory'.view u := by
  obtain ⟨current, message, -, -, rfl⟩ := load_cases loaded
  by_cases here : u = t
  · subst here
    simpa using le_seeing current order message
  · simp [here]

/-- Every message that the thread has not passed can be taken. -/
theorem load_some (current : memory.view t (.inr ℓ) ≤ i) (inside : i < (memory.messages ℓ).length)
    (order : MemoryOrder) : ∃ value memory', memory.load t ℓ order i = some (value, memory') := by
  simp [load, current, inside]

theorem load_view_other (loaded : memory.load t ℓ order i = some (value, memory')) (different : u ≠ t) :
    memory'.view u = memory.view u := by
  obtain ⟨_, _, _, _, rfl⟩ := load_cases loaded
  exact Function.update_of_ne different ..

theorem load_cell (loaded : memory.load t ℓ order i = some (value, memory')) :
    memory'.cell = memory.cell := by
  obtain ⟨_, _, _, _, rfl⟩ := load_cases loaded
  rfl

/-- An acquire load takes over what the storing thread had seen when it stored. -/
theorem le_seeing_acquire (memory : Memory T L V X A) (t : T) (ℓ : L) (i : Nat)
    (message : Message T L V) : message.view ≤ memory.seeing t ℓ .acquire i message :=
  le_sup_right

namespace Coherent

/-- The thread has then seen the location up to that very message. -/
theorem seeing_here (coherent : memory.Coherent owner) (found : (memory.messages ℓ)[i]? = some message)
    (t : T) (order : MemoryOrder) : memory.seeing t ℓ order i message (.inr ℓ) = i := by
  have place := coherent.place found
  unfold seeing
  split <;> simp [place]

theorem seeing_le (coherent : memory.Coherent owner)
    (found : (memory.messages ℓ)[i]? = some message) (t : T) (order : MemoryOrder) :
    memory.seeing t ℓ order i message ≤ memory.now := by
  have base : Function.update (memory.view t) (.inr ℓ) i ≤ memory.now := by
    intro place
    by_cases here : place = .inr ℓ
    · subst here
      have inside := (List.getElem?_eq_some_iff.mp found).1
      simp only [Function.update_self, now, Sum.elim_inr]
      omega
    · rw [Function.update_of_ne here]
      exact coherent.seen t place
  unfold seeing
  split
  · exact sup_le base (le_trans (coherent.told found) (coherent.seen _))
  · exact base

/-- A load tells a thread nothing new about itself. -/
theorem seeing_self (coherent : memory.Coherent owner) (current : memory.view t (.inr ℓ) ≤ i)
    (found : (memory.messages ℓ)[i]? = some message) (order : MemoryOrder) :
    memory.seeing t ℓ order i message (.inl t) = memory.view t (.inl t) :=
  Nat.le_antisymm (coherent.seeing_le found t order _) (le_seeing current order message _)

/-- A writer can only load its last store: it has passed all messages before it, and there are
none after it. -/
theorem load_own (coherent : memory.Coherent owner) (own : owner ℓ = t)
    (loaded : memory.load t ℓ order i = some (value, memory')) :
    i + 1 = (memory.messages ℓ).length ∧ memory' = memory := by
  obtain ⟨current, message, found, -, rfl⟩ := load_cases loaded
  have inside := (List.getElem?_eq_some_iff.mp found).1
  have length := coherent.own ℓ
  have told := coherent.told found
  rw [own] at length told
  obtain rfl : i = memory.view t (.inr ℓ) := by omega
  refine ⟨length.symm, ?_⟩
  have same : memory.seeing t ℓ order (memory.view t (.inr ℓ)) message = memory.view t := by
    unfold seeing
    rw [Function.update_eq_self]
    split
    · exact sup_eq_left.mpr told
    · rfl
  rw [same, Function.update_eq_self]

theorem seeing_own (coherent : memory.Coherent owner) (current : memory.view t (.inr ℓ) ≤ i)
    (found : (memory.messages ℓ)[i]? = some message) (order : MemoryOrder) (own : owner ℓ' = t) :
    memory.seeing t ℓ order i message (.inr ℓ') = memory.view t (.inr ℓ') := by
  have most : memory.seeing t ℓ order i message (.inr ℓ') ≤ (memory.messages ℓ').length - 1 :=
    coherent.seeing_le found t order (.inr ℓ')
  have least : memory.view t (.inr ℓ') ≤ memory.seeing t ℓ order i message (.inr ℓ') :=
    le_seeing current order message (.inr ℓ')
  have length := coherent.own ℓ'
  rw [own] at length
  omega

/-- Loads keep the memory coherent. -/
theorem load (coherent : memory.Coherent owner)
    (loaded : memory.load t ℓ order i = some (value, memory')) : memory'.Coherent owner := by
  obtain ⟨current, message, found, -, rfl⟩ := load_cases loaded
  have self := coherent.seeing_self current found order
  have same : now { memory with
      view := Function.update memory.view t (memory.seeing t ℓ order i message) } = memory.now := by
    funext place
    cases place with
    | inl u =>
      by_cases here : u = t
      · subst here
        simpa [now] using self
      · simp [now, here]
    | inr ℓ' => rfl
  refine ⟨fun u => ?_, fun found => ?_, coherent.place, fun kind x u => ?_, fun ℓ' => ?_⟩
  · rw [same]
    by_cases here : u = t
    · subst here
      simpa using coherent.seeing_le found u order
    · simpa [here] using coherent.seen u
  · exact le_trans (coherent.told found) (le_load_view loaded _)
  · by_cases here : u = t
    · subst here
      simpa [self] using coherent.made kind x u
    · simpa [here] using coherent.made kind x u
  · by_cases here : owner ℓ' = t
    · simpa [here, coherent.seeing_own current found order here] using coherent.own ℓ'
    · simpa [here] using coherent.own ℓ'

end Coherent
end Load

/-! ## Stores -/

section Store
variable [DecidableEq L]

def store (memory : Memory T L V X A) (t : T) (ℓ : L) (order : MemoryOrder) (value : V) :
    Memory T L V X A :=
  let i := (memory.messages ℓ).length
  let seen := Function.update (memory.view t) (.inr ℓ) i
  let view := if order = .release then seen else Function.update (fun _ => 0) (.inr ℓ) i
  { memory with
    messages := Function.update memory.messages ℓ (memory.messages ℓ ++ [{ value, view }])
    view := Function.update memory.view t seen }

variable {owner : L → T} {memory : Memory T L V X A} {t : T} {ℓ : L}

/-- The message of a store is the last one of its location, and carries at most what the
thread has then seen; that of a release store carries all of it. -/
theorem store_messages (memory : Memory T L V X A) (t : T) (ℓ : L) (order : MemoryOrder) (value : V) :
    ∃ view, (memory.store t ℓ order value).messages =
        Function.update memory.messages ℓ (memory.messages ℓ ++ [⟨value, view⟩]) ∧
      view ≤ (memory.store t ℓ order value).view t ∧
      view (.inr ℓ) = (memory.messages ℓ).length ∧
      (order = .release → view = (memory.store t ℓ order value).view t) := by
  refine ⟨_, rfl, ?_, ?_, ?_⟩
  · by_cases release : order = .release
    · simp [store, release]
    · intro place
      by_cases here : place = .inr ℓ <;> simp [store, release, here]
  · split <;> simp
  · intro release
    simp [store, release]

theorem store_view_self (memory : Memory T L V X A) (t : T) (ℓ : L) (order : MemoryOrder) (value : V) :
    (memory.store t ℓ order value).view t =
      Function.update (memory.view t) (.inr ℓ) (memory.messages ℓ).length :=
  Function.update_self ..

/-- A store tells the other threads nothing until they load it. -/
theorem store_view_other (different : u ≠ t) (memory : Memory T L V X A) (ℓ : L)
    (order : MemoryOrder) (value : V) : (memory.store t ℓ order value).view u = memory.view u :=
  Function.update_of_ne different ..

theorem le_store_view (length : (memory.messages ℓ).length = memory.view t (.inr ℓ) + 1)
    (order : MemoryOrder) (value : V) (u : T) :
    memory.view u ≤ (memory.store t ℓ order value).view u := by
  by_cases here : u = t
  · subst here
    rw [store_view_self, length]
    intro place
    by_cases self : place = .inr ℓ <;> simp [self]
  · rw [store_view_other here]

/-- A message after a store is the new one or was there before. -/
theorem getElem?_store {memory : Memory T L V X A} {order : MemoryOrder} {value : V}
    (found : ((memory.store t ℓ order value).messages ℓ')[i]? = some message) :
    (memory.messages ℓ')[i]? = some message ∨
      ℓ' = ℓ ∧ i = (memory.messages ℓ).length ∧ message.value = value ∧
        message.view ≤ (memory.store t ℓ order value).view t ∧
        message.view (.inr ℓ) = i ∧
        (order = .release → message.view = (memory.store t ℓ order value).view t) := by
  obtain ⟨view, messages, most, place, release⟩ := store_messages memory t ℓ order value
  rw [messages] at found
  by_cases here : ℓ' = ℓ
  · subst here
    rw [Function.update_self] at found
    rcases Nat.lt_trichotomy i (memory.messages ℓ').length with old | new | beyond
    · rw [List.getElem?_append_left old] at found
      exact .inl found
    · subst new
      rw [List.getElem?_concat_length] at found
      cases found
      exact .inr ⟨rfl, rfl, rfl, most, place, release⟩
    · rw [List.getElem?_eq_none (by simpa using Nat.succ_le_of_lt beyond)] at found
      cases found
  · rw [Function.update_of_ne here] at found
    exact .inl found

/-- A store that does not release tells of no plain access of its thread. -/
theorem untold_of_store {message : Message T L V} (relaxed : order ≠ .release)
    (member : message ∈ (memory.store t ℓ order value).messages ℓ') :
    message ∈ memory.messages ℓ' ∨ ∀ u, message.view (.inl u) = 0 := by
  simp only [store, if_neg relaxed] at member
  by_cases here : ℓ' = ℓ
  · subst here
    rw [Function.update_self, List.mem_append, List.mem_singleton] at member
    rcases member with old | rfl
    · exact .inl old
    · exact .inr (fun u => by simp)
  · rw [Function.update_of_ne here] at member
    exact .inl member

/-- Stores by the owner keep the memory coherent: the new message carries what its thread has
seen, or nothing if the store is relaxed. -/
theorem Coherent.store (coherent : memory.Coherent owner) (own : owner ℓ = t) (order : MemoryOrder)
    (value : V) : (memory.store t ℓ order value).Coherent owner := by
  have length := coherent.own ℓ
  rw [own] at length
  have later : memory.now ≤ (memory.store t ℓ order value).now := by
    intro place
    cases place with
    | inl u =>
      by_cases here : u = t
      · subst here
        simp [now, store_view_self]
      · simp [now, store_view_other here]
    | inr ℓ' =>
      by_cases here : ℓ' = ℓ
      · subst here
        simp [now, Memory.store]
      · simp [now, Memory.store, here]
  have fresh : (memory.store t ℓ order value).view t ≤ (memory.store t ℓ order value).now := by
    rw [store_view_self]
    intro place
    by_cases here : place = .inr ℓ
    · subst here
      simp [now, Memory.store]
    · rw [Function.update_of_ne here]
      exact Nat.le_trans (coherent.seen t place) (later place)
  refine ⟨fun u => ?_, fun found => ?_, fun found => ?_, fun kind x u => ?_, fun ℓ' => ?_⟩
  · by_cases here : u = t
    · subst here
      exact fresh
    · rw [store_view_other here]
      exact le_trans (coherent.seen u) later
  · rcases getElem?_store found with old | ⟨rfl, _, _, most, _⟩
    · exact le_trans (coherent.told old) (le_store_view length order value _)
    · exact own ▸ most
  · rcases getElem?_store found with old | ⟨rfl, _, _, _, place, _⟩
    · exact coherent.place old
    · exact Nat.le_of_eq place
  · by_cases here : u = t
    · subst here
      simpa [Memory.store] using coherent.made kind x u
    · rw [store_view_other here]
      exact coherent.made kind x u
  · by_cases here : ℓ' = ℓ
    · subst here
      simp [Memory.store, own]
    · by_cases mine : owner ℓ' = t
      · simpa [Memory.store, here, mine] using coherent.own ℓ'
      · simpa [Memory.store, here, mine] using coherent.own ℓ'

end Store

/-! ## Plain accesses -/

section Access
variable [DecidableEq X] [Fintype T]

/-- What a plain access leaves, besides the contents of the cell. -/
def access [DecidableEq L] (memory : Memory T L V X A) (kind : Access) (t : T) (x : X) :
    Memory T L V X A :=
  let clock := memory.view t (.inl t) + 1
  { memory with
    accesses := Function.update memory.accesses kind (Function.update (memory.accesses kind) x
      (Function.update (memory.accesses kind x) t clock))
    view := Function.update memory.view t (Function.update (memory.view t) (.inl t) clock)
    raced := Function.update memory.raced x (memory.raced x || !decide (memory.Unraced kind t x)) }

variable [DecidableEq L]

def read (memory : Memory T L V X A) (t : T) (x : X) : A × Memory T L V X A :=
  (memory.cell x, memory.access .read t x)

def write (memory : Memory T L V X A) (t : T) (x : X) (value : A) : Memory T L V X A :=
  { memory.access .write t x with cell := Function.update memory.cell x value }

variable {owner : L → T} {memory : Memory T L V X A}

/-- A plain access takes nothing away from what any thread has seen. -/
theorem le_access_view (memory : Memory T L V X A) (kind : Access) (t : T) (x : X) (u : T) :
    memory.view u ≤ (memory.access kind t x).view u := by
  intro place
  by_cases here : u = t
  · subst here
    by_cases self : place = .inl u <;> simp [access, self]
  · simp [access, here]

@[simp] theorem access_view_location (memory : Memory T L V X A) (kind : Access) (t : T) (x : X)
    (u : T) (ℓ : L) : (memory.access kind t x).view u (.inr ℓ) = memory.view u (.inr ℓ) := by
  by_cases here : u = t
  · subst here
    simp [access]
  · simp [access, here]

@[simp] theorem write_view_location (memory : Memory T L V X A) (t : T) (x : X) (value : A) (u : T)
    (ℓ : L) : (memory.write t x value).view u (.inr ℓ) = memory.view u (.inr ℓ) :=
  access_view_location memory .write t x u ℓ

theorem write_cell_other (different : y ≠ x) (memory : Memory T L V X A) (t : T) (value : A) :
    (memory.write t x value).cell y = memory.cell y :=
  Function.update_of_ne different ..

/-- An access leaves the accesses of another thread or to another cell. -/
theorem accesses_other (other : (u, y) ≠ (t, x)) (memory : Memory T L V X A) (kind kind' : Access) :
    (memory.access kind t x).accesses kind' y u = memory.accesses kind' y u := by
  by_cases same : kind' = kind
  · subst same
    by_cases cell : y = x
    · subst cell
      have thread : u ≠ t := fun same => other (congrArg (·, y) same)
      simp [access, thread]
    · simp [access, cell]
  · simp [access, same]

/-- An access concerns only who made it and the cell that it was made to. -/
theorem covers_access {view : View T L} {kind : Access} (other : (u, y) ≠ (t, x)) :
    (memory.access kind t x).Covers view u y ↔ memory.Covers view u y := by
  simp only [Covers, accesses_other other]

/-- An access counts, and leaves the others counted. -/
theorem accesses_access (memory : Memory T L V X A) (kind : Access) (t : T) (x : X) :
    (memory.access kind t x).accesses kind x t ≠ 0 ∧ ∀ {kind' y u}, memory.accesses kind' y u ≠ 0 →
      (memory.access kind t x).accesses kind' y u ≠ 0 := by
  refine ⟨by simp [access], fun {kind' y u} made => ?_⟩
  by_cases same : kind' = kind
  · subst same
    by_cases cell : y = x
    · subst cell
      by_cases thread : u = t <;> simp [access, thread, made]
    · simpa [access, cell] using made
  · simpa [access, same] using made

/-- An access to a cell whose last conflicting access was not seen is a race. -/
theorem access_raced (raced : ¬memory.Unraced kind t x) : (memory.access kind t x).raced x = true := by
  simp [access, raced]

theorem access_raced_mono (raced : memory.raced y = true) (kind : Access) (t : T) (x : X) :
    (memory.access kind t x).raced y = true := by
  by_cases here : y = x
  · subst here
    simp [access, raced]
  · simpa [access, here] using raced

/-- An access that has seen the conflicting ones before it adds no race. -/
theorem raced_access {kind : Access} (unraced : memory.Unraced kind t x) :
    (memory.access kind t x).raced = memory.raced := by
  simp [access, unraced]

theorem Coherent.access (coherent : memory.Coherent owner) (kind : Access) (t : T) (x : X) :
    (memory.access kind t x).Coherent owner := by
  have later : memory.now ≤ (memory.access kind t x).now := by
    intro place
    cases place with
    | inl u => exact le_access_view memory kind t x u (.inl u)
    | inr ℓ => exact Nat.le_refl _
  refine ⟨fun u => ?_, fun found => ?_, coherent.place, fun kind' y u => ?_, fun ℓ => ?_⟩
  · by_cases here : u = t
    · subst here
      intro place
      by_cases self : place = .inl u
      · subst self
        exact Nat.le_refl _
      · simp only [Memory.access, Function.update_self, Function.update_of_ne self]
        exact Nat.le_trans (coherent.seen u place) (later place)
    · simp only [Memory.access, Function.update_of_ne here]
      exact le_trans (coherent.seen u) later
  · exact le_trans (coherent.told found) (le_access_view memory kind t x _)
  · by_cases other : (u, y) = (t, x)
    · cases other
      by_cases same : kind' = kind
      · subst same
        simp [Memory.access]
      · simpa [Memory.access, same] using Nat.le_succ_of_le (coherent.made kind' x t)
    · exact Nat.le_trans ((covers_access other).mpr (coherent.covers_self u y) kind')
        (le_access_view memory kind t x u (.inl u))
  · rw [access_view_location]
    exact coherent.own ℓ

end Access

end Memory
end ReleaseAcquire
end H2oTpcc
