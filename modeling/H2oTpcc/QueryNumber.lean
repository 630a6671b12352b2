import H2oTpcc.QueryString
import H2oTpcc.TfbHandlers

/-! `get_query_number` of `tfb_handlers.c`. `get_query_param` gives the place after the
parameter's name, and `get_query_number` steps over the name once more: it reads the
number eight bytes too late. -/
namespace H2oTpcc
open Scan

def tfbQueriesParameter := "queries="

/-! ## `atoi` -/

def isSpace (c : UInt8) : Bool := c = 32 || (9 ≤ c && c ≤ 13)

def isDigit (c : UInt8) : Bool := 48 ≤ c && c ≤ 57

/-- The number that a text starts with, after white space and with a sign, and how many
bytes it takes with these; 0 if there is none. -/
def leadingNumber (text : Bytes) : Int × Nat :=
  let spaces := (text.takeWhile isSpace).length
  let (negative, signs, rest) := match text.dropWhile isSpace with
    | 45 :: rest => (true, 1, rest)
    | 43 :: rest => (false, 1, rest)
    | rest => (false, 0, rest)
  let digits := rest.takeWhile isDigit
  let n : Nat := digits.foldl (fun n digit => 10 * n + (digit.toNat - 48)) 0
  (if negative then -n else n, spaces + signs + digits.length)

def FitsInt (n : Int) : Prop := -2147483648 ≤ n ∧ n ≤ 2147483647

instance (n : Int) : Decidable (FitsInt n) := inferInstanceAs (Decidable (_ ∧ _))

/-- `atoi` of the string at `p` in a memory that has a zero byte at `stop`, which is not before
`p`. The last byte it reads is the one that ends the number. A number that does not fit has no
result: the platform gives one. -/
def atoi (overflow : Int → Int32) (stop p : Nat) : Scan UInt8 Int32 := fun memory =>
  let number := leadingNumber (slice memory p (stop - p))
  (if FitsInt number.1 then Int32.ofInt number.1 else overflow number.1, List.range' p (number.2 + 1))

/-! ## `get_query_number` -/

def sizeMax : Nat := 18446744073709551615

/-- What `get_query_number` reads of `h2o_req_t`: the path, and where the query starts in it. The
memory has a zero byte after the path, far enough for `atoi` to start before it: the search ends
inside the path, and eight bytes are stepped over. -/
structure PathRequest where
  memory : Nat → UInt8
  base : Nat
  len : Nat
  queryAt : Nat
  stop : Nat
  inside : queryAt < sizeMax → queryAt < len
  covers : base + len + 8 ≤ stop
  ended : memory stop = 0

namespace PathRequest
variable (overflow : Int → Int32) (req : PathRequest)

def qs : Nat := req.base + req.queryAt + 1

def qsLen : Nat := req.len - req.queryAt - 1

/-- `get_query_number`. -/
def getQueryNumber : Scan UInt8 Nat := do
  if req.queryAt < sizeMax then
    match ← getQueryParam req.qs req.qsLen (literal tfbQueriesParameter) with
    | some p =>
      let n ← atoi overflow req.stop (p + (literal tfbQueriesParameter).length)
      return H2oTpcc.getQueryNumber (some n)
    | none => return H2oTpcc.getQueryNumber none
  else return H2oTpcc.getQueryNumber none

/-! ## What it is to be -/

/-- The bytes of the query string. -/
def query : Bytes := slice req.memory req.qs req.qsLen

/-- Where the value of the first parameter `queries=` starts in the query string. -/
def parameter : Option Nat :=
  if req.queryAt < sizeMax then
    paramPosition (literal tfbQueriesParameter) (req.query.splitOn ampersand)
  else none

/-- The number that stands at this place of the query string, 0 if there is none. -/
def value (position : Nat) : Int := (leadingNumber (req.query.drop position)).1

def clampQueries (n : Int) : Nat := (max 1 (min 500 n)).toNat

/-- The number that is asked for. -/
def asked : Nat :=
  match req.parameter with
  | some position => clampQueries (req.value position)
  | none => 1

/-- The number is the one asked for, unless that does not fit in `int`; and at most the byte
after the query string, which ends the number, is read besides those of the query string. -/
structure Right : Prop where
  result : (∀ position, req.parameter = some position → FitsInt (req.value position)) →
    (req.getQueryNumber overflow req.memory).1 = req.asked
  reads : ∀ q ∈ (req.getQueryNumber overflow req.memory).2, req.qs ≤ q ∧ q ≤ req.qs + req.qsLen

/-- Wherever `atoi` starts, the zero byte that ends the memory is still to come: a value shorter
than the eight bytes stepped over does not take it past that byte. -/
theorem number_before_stop {position : Nat} (found : req.parameter = some position) :
    req.qs + position + 8 ≤ req.stop := by
  rw [parameter] at found
  split at found
  · rename_i present
    have bound := paramPosition_le found
    have inside := req.inside present
    have covers := req.covers
    rw [List.intercalate_splitOn, query, Scan.slice_length, qsLen] at bound
    rw [qs]
    omega
  · cases found

private theorem getQueryNumber_some (n : Int32) :
    H2oTpcc.getQueryNumber (some n) = clampQueries n.toInt := by
  have one : (1 : Int32).toInt = 1 := rfl
  have most : (500 : Int32).toInt = 500 := rfl
  unfold H2oTpcc.getQueryNumber clampQueries
  simp only [Option.getD_some, tfbMaxQueries, gt_iff_lt, Int32.lt_iff_toInt_lt, apply_ite Int32.toInt]
  split <;> split <;> omega

/-- What `get_query_param` gives in it. -/
private theorem getQueryParam_parameter (present : req.queryAt < sizeMax) :
    StaysIn req.memory req.qs (req.qs + req.qsLen)
      (getQueryParam req.qs req.qsLen (literal tfbQueriesParameter))
      fun found => found = req.parameter.map (req.qs + ·) := by
  have nonempty : literal tfbQueriesParameter ≠ [] := by decide
  have plain : ampersand ∉ literal tfbQueriesParameter := by decide
  have found := getQueryParam_staysIn req.memory req.qs req.qsLen nonempty plain
  rwa [parameter, if_pos present]

private theorem right_of_absent (absent : req.parameter = none) : req.Right overflow := by
  have asks : req.asked = 1 := by rw [asked, absent]
  by_cases present : req.queryAt < sizeMax
  · have found := req.getQueryParam_parameter present
    have result := found.result
    rw [absent, Option.map_none] at result
    have run : req.getQueryNumber overflow req.memory =
        (1, (getQueryParam req.qs req.qsLen (literal tfbQueriesParameter) req.memory).2 ++ []) := by
      rw [getQueryNumber, if_pos present, bind_apply, result]
      rfl
    rw [List.append_nil] at run
    constructor
    · rw [run, asks]
      exact fun _ => rfl
    · rw [run]
      intro q read
      obtain ⟨lower, upper⟩ := found.reads q read
      exact ⟨lower, Nat.le_of_lt upper⟩
  · have run : req.getQueryNumber overflow req.memory = (1, []) := by
      rw [getQueryNumber, if_neg present]
      rfl
    constructor
    · rw [run, asks]
      exact fun _ => rfl
    · rw [run]
      exact fun q none => absurd none List.not_mem_nil

/-- The number that `atoi` finds for a value at this place of the query string. -/
def late (position : Nat) : Int × Nat :=
  leadingNumber (slice req.memory (req.qs + position + 8) (req.stop - (req.qs + position + 8)))

/-- Stepping over the name once more does no harm: the number found eight bytes into the
value ends inside the query string, and counts as the one that was asked for, if that fits. -/
structure Harmless (position : Nat) : Prop where
  ends : position + 8 + (req.late position).2 ≤ req.qsLen
  same : FitsInt (req.value position) →
    clampQueries (atoi overflow req.stop (req.qs + position + 8) req.memory).1.toInt =
      clampQueries (req.value position)

/-- What `get_query_number` gives and reads when there is the parameter. -/
private theorem getQueryNumber_present {position : Nat} (found : req.parameter = some position) :
    req.queryAt < sizeMax ∧ req.getQueryNumber overflow req.memory =
      (clampQueries (atoi overflow req.stop (req.qs + position + 8) req.memory).1.toInt,
        (getQueryParam req.qs req.qsLen (literal tfbQueriesParameter) req.memory).2 ++
          List.range' (req.qs + position + 8) ((req.late position).2 + 1)) := by
  have present : req.queryAt < sizeMax := by
    by_contra absent
    rw [parameter, if_neg absent] at found
    cases found
  have result := (req.getQueryParam_parameter present).result
  have eight : (literal tfbQueriesParameter).length = 8 := by decide
  have read : (atoi overflow req.stop (req.qs + position + 8) req.memory).2 =
      List.range' (req.qs + position + 8) ((req.late position).2 + 1) := rfl
  rw [found, Option.map_some] at result
  refine ⟨present, ?_⟩
  rw [getQueryNumber, if_pos present, bind_apply, result]
  dsimp only
  rw [eight, bind_apply, pure_apply, read, List.append_nil, getQueryNumber_some]

private theorem right_iff_of_present {position : Nat} (found : req.parameter = some position) :
    req.Right overflow ↔ req.Harmless overflow position := by
  obtain ⟨present, run⟩ := req.getQueryNumber_present overflow found
  have asks : req.asked = clampQueries (req.value position) := by rw [asked, found]
  have fits : (∀ place, req.parameter = some place → FitsInt (req.value place)) ↔
      FitsInt (req.value position) := by
    rw [found]
    exact ⟨fun all => all position rfl, fun here place same => Option.some.inj same ▸ here⟩
  constructor
  · rintro ⟨result, reads⟩
    rw [run, fits] at result
    rw [run] at reads
    constructor
    · -- The byte that ends the number is the last one read.
      have last := reads (req.qs + position + 8 + (req.late position).2)
        (List.mem_append_right _ (List.mem_range'_1.mpr ⟨by omega, by omega⟩))
      omega
    · exact fun small => (result small).trans asks
  · rintro ⟨ends, same⟩
    constructor
    · rw [run, asks, fits]
      exact same
    · rw [run]
      intro q read
      rcases List.mem_append.mp read with searched | number
      · obtain ⟨lower, upper⟩ := (req.getQueryParam_parameter present).reads q searched
        exact ⟨lower, Nat.le_of_lt upper⟩
      · have range := List.mem_range'_1.mp number
        omega

end PathRequest

/-- **Query count parsing** is right exactly for requests without the parameter and for
those in which the number that stands eight bytes into its value ends inside the query
string and counts as the value does. -/
theorem query_number_right_iff (overflow : Int → Int32) (req : PathRequest) :
    req.Right overflow ↔ ∀ position, req.parameter = some position → req.Harmless overflow position := by
  cases found : req.parameter with
  | none => exact iff_of_true (req.right_of_absent overflow found) fun _ impossible => nomatch impossible
  | some position =>
    rw [req.right_iff_of_present overflow found]
    exact ⟨fun harmless _ same => Option.some.inj same ▸ harmless, fun all => all position rfl⟩

/-- A request line from its path on, for `queries=` and this value. -/
def queriesRequest (value : Bytes) : PathRequest where
  memory p := (literal "/queries?queries=" ++ value ++ literal " HTTP/1.1").getD p 0
  base := 0
  len := 17 + value.length
  queryAt := 8
  stop := 26 + value.length
  inside _ := by omega
  covers := by omega
  ended := by
    have most : (literal "/queries?queries=" ++ value ++ literal " HTTP/1.1").length =
        26 + value.length := by
      rw [List.length_append, List.length_append, Nat.add_right_comm]
      rfl
    rw [List.getD_eq_getElem?_getD, List.getElem?_eq_none (Nat.le_of_eq most)]
    rfl

/-- For `queries=20` the value is shorter than the eight bytes stepped over, and the number is
read from the version of the protocol behind the path. -/
theorem query_number_from_version :
    let req := queriesRequest (literal "20")
    let run := req.getQueryNumber (fun _ => 0) req.memory
    req.asked = 20 ∧ run.1 = 1 ∧ ∃ q ∈ run.2, req.qs + req.qsLen < q := by
  intro req run
  have found : req.parameter = some 8 := by decide
  obtain ⟨-, result⟩ := req.getQueryNumber_present (fun _ => 0) found
  refine ⟨by decide, ?_, 25, ?_, by decide⟩
  · change (req.getQueryNumber (fun _ => 0) req.memory).1 = 1
    rw [result]
    decide
  · change 25 ∈ (req.getQueryNumber (fun _ => 0) req.memory).2
    rw [result]
    exact List.mem_append_right _ (by decide)

/-- Eight digits 0 before the number are stepped over, and the number is the one asked for. -/
theorem query_number_right_iff_padded :
    (queriesRequest (literal "0000000020")).Right fun _ => 0 := by
  refine (query_number_right_iff _ _).mpr fun position found => ?_
  have eight : (queriesRequest (literal "0000000020")).parameter = some 8 := by decide
  cases Option.some.inj (eight.symm.trans found)
  exact ⟨by decide, fun _ => by decide⟩

end H2oTpcc
