import Std.Data.ExtTreeMap
import Mathlib.Data.List.Basic

/-! An ordered key-value store with optimistic serializable transactions. The
database is the list of its commits: a version is a number of commits, and the
store at a version is what those commits leave. An attempt reads from one
version and may commit when none of the keys it read has been set since. -/
namespace H2oTpcc

abbrev Store (K V : Type) [Ord K] := Std.ExtTreeMap K V

/-- The value a sequence of sets leaves under a key; the last one wins. -/
def lastWrite [DecidableEq K] : List (K × V) → K → Option V
  | [], _ => none
  | write :: rest, key => (lastWrite rest key).or (if write.1 = key then some write.2 else none)

section Writes
variable {K V : Type} [DecidableEq K]

@[simp] theorem lastWrite_nil (key : K) : lastWrite ([] : List (K × V)) key = none := rfl

@[simp] theorem lastWrite_cons (write : K × V) (rest : List (K × V)) (key : K) :
    lastWrite (write :: rest) key =
      (lastWrite rest key).or (if write.1 = key then some write.2 else none) := rfl

@[simp] theorem lastWrite_append (first second : List (K × V)) (key : K) :
    lastWrite (first ++ second) key = (lastWrite second key).or (lastWrite first key) := by
  induction first with
  | nil => simp
  | cons write rest ih => simp [ih, Option.or_assoc]

theorem lastWrite_eq_none {writes : List (K × V)} {key : K} :
    lastWrite writes key = none ↔ ∀ write ∈ writes, write.1 ≠ key := by
  induction writes with
  | nil => simp
  | cons write rest ih => by_cases same : write.1 = key <;> simp [ih, same]

theorem mem_of_lastWrite {writes : List (K × V)} {key : K} {value : V}
    (found : lastWrite writes key = some value) : (key, value) ∈ writes := by
  induction writes with
  | nil => cases found
  | cons write rest ih =>
    rw [lastWrite_cons] at found
    cases later : lastWrite rest key with
    | some other =>
      rw [later, Option.some_or] at found
      exact List.mem_cons_of_mem _ (ih (later.trans found))
    | none =>
      rw [later, Option.none_or] at found
      split at found
      · rename_i same
        cases found
        exact List.mem_cons.mpr (.inl (by rw [← same]))
      · cases found

/-- A key that is set, and only ever to values with some property, ends with one. -/
theorem lastWrite_of_mem {writes : List (K × V)} {key : K} {Q : V → Prop}
    (set : ∃ write ∈ writes, write.1 = key) (all : ∀ write ∈ writes, write.1 = key → Q write.2) :
    ∃ value, lastWrite writes key = some value ∧ Q value := by
  cases found : lastWrite writes key with
  | none =>
    obtain ⟨write, member, same⟩ := set
    exact absurd same (lastWrite_eq_none.mp found write member)
  | some value => exact ⟨value, rfl, all _ (mem_of_lastWrite found) rfl⟩

/-- Where no key is set twice, every set is the last one of its key. -/
theorem lastWrite_of_nodup {writes : List (K × V)} {key : K} {value : V}
    (once : (writes.map Prod.fst).Nodup) (member : (key, value) ∈ writes) :
    lastWrite writes key = some value := by
  induction writes with
  | nil => cases member
  | cons write rest ih =>
    rw [List.map_cons, List.nodup_cons] at once
    rw [lastWrite_cons]
    rcases List.mem_cons.mp member with rfl | later
    · have only : lastWrite rest key = none :=
        lastWrite_eq_none.mpr fun write inside same => once.1 (List.mem_map.mpr ⟨write, inside, same⟩)
      rw [only, Option.none_or, if_pos rfl]
    · rw [ih once.2 later, Option.some_or]

/-- Dropping the writes of other keys does not change what is last for one that is kept. -/
theorem lastWrite_filter (kept : K → Bool) (writes : List (K × V)) (key : K) :
    lastWrite (writes.filter fun write => kept write.1) key =
      if kept key then lastWrite writes key else none := by
  induction writes with
  | nil => simp
  | cons write rest ih =>
    rw [List.filter_cons, lastWrite_cons]
    split
    · rename_i passes
      rw [lastWrite_cons, ih]
      by_cases same : write.1 = key
      · simp [← same, passes]
      · cases kept key <;> simp [same]
    · rename_i drops
      rw [ih]
      by_cases same : write.1 = key
      · simp [← same, drops]
      · simp [same]

/-- Renaming keys without making two of them equal changes nothing. -/
theorem lastWrite_map {J : Type} [DecidableEq J] {f : J → K} (injective : ∀ a b, f a = f b → a = b)
    (writes : List (J × V)) (key : J) :
    lastWrite (writes.map fun write => (f write.1, write.2)) (f key) = lastWrite writes key := by
  induction writes with
  | nil => rfl
  | cons write rest ih =>
    have same : f write.1 = f key ↔ write.1 = key := ⟨injective _ _, congrArg f⟩
    simp [ih, same]

/-- A loop that sets one key per element leaves under each key the value of the
last element that set it. -/
theorem lastWrite_loop (loop : List J) (key : J → K) (value : J → V) (other : K) :
    lastWrite (loop.map fun i => (key i, value i)) other =
      ((loop.filter fun i => decide (key i = other)).getLast?).map value := by
  induction loop with
  | nil => rfl
  | cons i rest ih =>
    rw [List.map_cons, lastWrite_cons, ih]
    by_cases own : key i = other
    · rw [if_pos own, List.filter_cons_of_pos (by simpa using own), List.getLast?_cons]
      cases (rest.filter fun i => decide (key i = other)).getLast? <;> rfl
    · rw [if_neg own, List.filter_cons_of_neg (by simpa using own), Option.or_none]

theorem lastWrite_range_none {count : Nat} (key : Nat → K) (value : Nat → V) {other : K}
    (apart : ∀ i < count, key i ≠ other) :
    lastWrite ((List.range count).map fun i => (key i, value i)) other = none := by
  rw [lastWrite_eq_none]
  intro write member
  obtain ⟨i, below, rfl⟩ := List.mem_map.mp member
  exact apart i (List.mem_range.mp below)

/-- A loop that sets one key per index leaves under each key the value of the
last index that set it. -/
theorem lastWrite_range_some {count : Nat} (key : Nat → K) (value : Nat → V) {i : Nat}
    (below : i < count) (last : ∀ j < count, key j = key i → j ≤ i) :
    lastWrite ((List.range count).map fun i => (key i, value i)) (key i) = some (value i) := by
  obtain ⟨after, rfl⟩ := Nat.exists_eq_add_of_lt below
  have split : List.range (i + after + 1) =
      List.range (i + 1) ++ (List.range after).map (i + 1 + ·) := by
    rw [show i + after + 1 = (i + 1) + after by omega, List.range_add]
  have behind : lastWrite (((List.range after).map (i + 1 + ·)).map fun i => (key i, value i)) (key i) =
      none := by
    rw [List.map_map]
    apply lastWrite_range_none
    intro j small same
    have := last (i + 1 + j) (by omega) same
    omega
  rw [split, List.map_append, lastWrite_append, behind, Option.none_or, List.range_succ,
    List.map_append, lastWrite_append]
  simp

/-- What a loop leaves under a key is what the last of its iterations for that key has set. -/
theorem last_of_lastWrite_range {count : Nat} {key : Nat → K} {value : Nat → V} {other : K} {found : V}
    (set : lastWrite ((List.range count).map fun i => (key i, value i)) other = some found) :
    ∃ i < count, key i = other ∧ value i = found ∧ ∀ j < count, key j = key i → j ≤ i := by
  induction count with
  | zero => cases set
  | succ count ih =>
    rw [List.range_succ, List.map_append, lastWrite_append] at set
    by_cases own : key count = other
    · simp only [List.map_cons, List.map_nil, lastWrite_cons, lastWrite_nil, own, if_true,
        Option.none_or, Option.some_or, Option.some_inj] at set
      exact ⟨count, Nat.lt_succ_self count, own, set, fun j below _ => Nat.le_of_lt_succ below⟩
    · simp only [List.map_cons, List.map_nil, lastWrite_cons, lastWrite_nil, own, if_false,
        Option.none_or] at set
      obtain ⟨i, below, same, here, last⟩ := ih set
      refine ⟨i, Nat.lt_succ_of_lt below, same, here, fun j small equal => ?_⟩
      rcases Nat.lt_succ_iff_lt_or_eq.mp small with earlier | rfl
      · exact last j earlier equal
      · exact absurd (equal.trans same) own

end Writes

/-- One committed transaction; `author` says whose it was. -/
structure Commit (K V A : Type) where
  author : A
  writes : List (K × V)

structure Database (K V A : Type) [Ord K] where
  base : Store K V
  log : List (Commit K V A) := []

variable {K V A : Type} [Ord K]

def Database.append (db : Database K V A) (commit : Commit K V A) : Database K V A :=
  { db with log := db.log ++ [commit] }

@[simp] theorem Database.append_log (db : Database K V A) (commit : Commit K V A) :
    (db.append commit).log = db.log ++ [commit] := rfl

@[simp] theorem Database.append_base (db : Database K V A) (commit : Commit K V A) :
    (db.append commit).base = db.base := rfl

omit [Ord K] in
/-- The commit at `index` is the last of the log that set the key. -/
def LastSetBy (log : List (Commit K V A)) (key : K) (index : Nat) : Prop :=
  (∃ commit, log[index]? = some commit ∧ ∃ value, (key, value) ∈ commit.writes) ∧
    ∀ later commit, index < later → log[later]? = some commit → ∀ value, (key, value) ∉ commit.writes

omit [Ord K] in
/-- A commit is the last to have set the keys that it sets. -/
theorem LastSetBy.of_append {log : List (Commit K V A)} {commit : Commit K V A} {key : K} {value : V}
    (sets : (key, value) ∈ commit.writes) : LastSetBy (log ++ [commit]) key log.length := by
  refine ⟨⟨commit, by simp, value, sets⟩, ?_⟩
  intro later other after found
  obtain ⟨inside, _⟩ := List.getElem?_eq_some_iff.mp found
  rw [List.length_append, List.length_singleton] at inside
  omega

omit [Ord K] in
theorem LastSetBy.append {log : List (Commit K V A)} {commit : Commit K V A} {key : K} {index : Nat}
    (last : LastSetBy log key index) (leaves : ∀ value, (key, value) ∉ commit.writes) :
    LastSetBy (log ++ [commit]) key index := by
  obtain ⟨⟨setter, found, sets⟩, none⟩ := last
  obtain ⟨inside, _⟩ := List.getElem?_eq_some_iff.mp found
  refine ⟨⟨setter, by rw [List.getElem?_append_left inside, found], sets⟩, ?_⟩
  intro later other after found'
  rcases Nat.lt_or_ge later log.length with old | new
  · rw [List.getElem?_append_left old] at found'
    exact none later other after found'
  · rw [List.getElem?_append_right new, List.getElem?_singleton] at found'
    split at found' <;> cases found'
    exact leaves

variable [Std.TransOrd K]

/-- Commits a buffer of sets: each overwrites the previous value. -/
def applyWrites (store : Store K V) (writes : List (K × V)) : Store K V :=
  writes.foldl (fun store write => store.insert write.1 write.2) store

theorem applyWrites_append (store : Store K V) (first second : List (K × V)) :
    applyWrites store (first ++ second) = applyWrites (applyWrites store first) second :=
  List.foldl_append

/-- The store after the first `version` commits. -/
def Database.asOf (db : Database K V A) (version : Nat) : Store K V :=
  (db.log.take version).foldl (fun store commit => applyWrites store commit.writes) db.base

/-- The current store. -/
def Database.store (db : Database K V A) : Store K V := db.asOf db.log.length

/-- A transaction between two resets: the version its reads come from, fixed by
the first of them, what it read, and the sets it has buffered. -/
structure Attempt (K V : Type) where
  version : Option Nat := none
  reads : List (K × Option V) := []
  writes : List (K × V) := []

namespace Attempt
variable [DecidableEq K]

/-- The attempt read a key that a commit after its version has set. -/
def Conflicts (attempt : Attempt K V) (db : Database K V A) : Prop :=
  ∃ version, attempt.version = some version ∧ ∃ read ∈ attempt.reads,
    ∃ commit ∈ db.log.drop version, ∃ write ∈ commit.writes, write.1 = read.1

instance (attempt : Attempt K V) (db : Database K V A) : Decidable (attempt.Conflicts db) :=
  match found : attempt.version with
  | none => isFalse (fun ⟨_, chosen, _⟩ => by rw [found] at chosen; cases chosen)
  | some version =>
    decidable_of_iff (∃ read ∈ attempt.reads, ∃ commit ∈ db.log.drop version,
        ∃ write ∈ commit.writes, write.1 = read.1)
      ⟨fun hit => ⟨version, found, hit⟩,
        fun ⟨other, chosen, hit⟩ => by rw [found] at chosen; cases chosen; exact hit⟩

/-- Everything the attempt has read is what its version held. -/
structure Faithful (attempt : Attempt K V) (db : Database K V A) : Prop where
  version_le : ∀ version, attempt.version = some version → version ≤ db.log.length
  reads_from : ∀ read ∈ attempt.reads, ∃ version, attempt.version = some version ∧
    (db.asOf version)[read.1]? = read.2

end Attempt

/-! ## Versions -/

namespace Database

theorem asOf_append (db : Database K V A) (commit : Commit K V A)
    (old : version ≤ db.log.length) : (db.append commit).asOf version = db.asOf version := by
  unfold asOf append
  rw [List.take_append_of_le_length old]

/-- A version is the one before it with the writes of one commit applied. -/
theorem asOf_succ (db : Database K V A) (found : db.log[version]? = some commit) :
    db.asOf (version + 1) = applyWrites (db.asOf version) commit.writes := by
  simp only [asOf, List.take_add_one, found, Option.toList_some, List.foldl_append, List.foldl_cons,
    List.foldl_nil]

@[simp] theorem asOf_zero (db : Database K V A) : db.asOf 0 = db.base := by simp [asOf]

end Database

namespace Attempt

theorem faithful_empty (db : Database K V A) : Faithful ({} : Attempt K V) db :=
  ⟨fun _ chosen => (by cases chosen), fun _ member => (by cases member)⟩

/-- Later commits do not change what a version held, so what was read stays faithfully recorded. -/
theorem Faithful.append {attempt : Attempt K V} {db : Database K V A}
    (faithful : attempt.Faithful db) (commit : Commit K V A) : attempt.Faithful (db.append commit) := by
  constructor
  · intro version chosen
    have bound := faithful.version_le version chosen
    simp only [Database.append_log, List.length_append, List.length_singleton]
    omega
  · intro read member
    obtain ⟨version, chosen, value⟩ := faithful.reads_from read member
    exact ⟨version, chosen, by rw [db.asOf_append commit (faithful.version_le version chosen), value]⟩

end Attempt

variable [Std.LawfulEqOrd K] [DecidableEq K]

/-- After some writes a key has what the last of them set, or else what it had. -/
theorem applyWrites_get (store : Store K V) (writes : List (K × V)) (key : K) :
    (applyWrites store writes)[key]? = (lastWrite writes key).or store[key]? := by
  induction writes generalizing store with
  | nil => rfl
  | cons write rest ih =>
    have step : applyWrites store (write :: rest) = applyWrites (store.insert write.1 write.2) rest := rfl
    rw [step, ih, lastWrite_cons, Option.or_assoc, Std.ExtTreeMap.getElem?_insert]
    by_cases same : write.1 = key <;> simp [same]

theorem applyWrites_other (store : Store K V) {writes : List (K × V)} {key : K}
    (untouched : ∀ write ∈ writes, write.1 ≠ key) : (applyWrites store writes)[key]? = store[key]? := by
  rw [applyWrites_get, lastWrite_eq_none.mpr untouched, Option.none_or]

/-- Sets of keys that are all set again later leave nothing: only the later ones can be told
from the store. -/
theorem applyWrites_covered (store : Store K V) {first second : List (K × V)}
    (covered : ∀ write ∈ first, ∃ later ∈ second, later.1 = write.1) :
    applyWrites (applyWrites store first) second = applyWrites store second := by
  apply Std.ExtTreeMap.ext_getElem?
  intro key
  rw [applyWrites_get, applyWrites_get, applyWrites_get]
  cases set : lastWrite second key with
  | some value => rw [Option.some_or, Option.some_or]
  | none =>
    have untouched : lastWrite first key = none := by
      refine lastWrite_eq_none.mpr fun write member same => ?_
      obtain ⟨later, inside, again⟩ := covered write member
      exact lastWrite_eq_none.mp set later inside (again.trans same)
    rw [untouched, Option.none_or]

/-- A key no commit after `version` has set still has the value it had then. -/
theorem Database.asOf_unchanged (db : Database K V A) {key : K} (version later : Nat)
    (order : version ≤ later)
    (untouched : ∀ commit ∈ (db.log.take later).drop version, ∀ write ∈ commit.writes, write.1 ≠ key) :
    (db.asOf later)[key]? = (db.asOf version)[key]? := by
  induction order with
  | refl => rfl
  | @step later order ih =>
    have before : (db.asOf later)[key]? = (db.asOf version)[key]? := by
      apply ih
      intro commit member
      apply untouched commit
      rw [List.take_add_one, List.drop_append]
      exact List.mem_append_left _ member
    cases found : db.log[later]? with
    | none =>
      have past : db.log.take (later + 1) = db.log.take later := by simp [List.take_add_one, found]
      simpa [Database.asOf, past] using before
    | some commit =>
      rw [db.asOf_succ found, applyWrites_other, before]
      apply untouched commit
      have long : later < db.log.length := (List.getElem?_eq_some_iff.mp found).1
      simp [List.take_add_one, found, List.drop_append, Nat.min_eq_left (Nat.le_of_lt long),
        Nat.sub_eq_zero_of_le order]

/-! ## Attempts -/

namespace Attempt

/-- **Validation.** An attempt without conflicts has read the current store. -/
theorem reads_current {attempt : Attempt K V} {db : Database K V A}
    (faithful : attempt.Faithful db) (clear : ¬ attempt.Conflicts db) :
    ∀ read ∈ attempt.reads, db.store[read.1]? = read.2 := by
  intro read member
  obtain ⟨version, chosen, value⟩ := faithful.reads_from read member
  rw [← value]
  apply db.asOf_unchanged version _ (faithful.version_le version chosen)
  intro commit later write written same
  rw [List.take_length] at later
  exact clear ⟨version, chosen, read, member, commit, later, write, written, same⟩

end Attempt

end H2oTpcc
