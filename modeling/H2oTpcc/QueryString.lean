import H2oTpcc.MemoryScan
import H2oTpcc.PackedLayout

/-! `get_query_param` of `utility.c`: the search for a parameter through the bytes of a
query string takes the same steps as one through its segments. -/
namespace H2oTpcc
open Scan

def ampersand : UInt8 := 38

/-- The test of the loop: the name fits in what remains and is there. -/
def nameAt (name : Bytes) (p remaining : Nat) : Scan UInt8 Bool :=
  if remaining ≥ name.length then memcmp p name else pure false

/-- The loop of `get_query_param` at `p`. -/
def getQueryParamFrom (query queryLen : Nat) (name : Bytes) (p : Nat) : Scan UInt8 (Option Nat) := do
  if p < query + queryLen then
    let remaining := queryLen - (p - query)
    if ← nameAt name p remaining then return some (p + name.length)
    match ← memchr p ampersand remaining with
    | none => return none
    | some next => getQueryParamFrom query queryLen name (next.val + 1)
  else return none
termination_by query + queryLen - p
decreasing_by
  have := next.property
  omega

/-- `get_query_param`; none stands for NULL. -/
def getQueryParam (query queryLen : Nat) (name : Bytes) : Scan UInt8 (Option Nat) :=
  getQueryParamFrom query queryLen name query

/-! ## The search through the segments -/

/-- The place just after the name in the first segment that starts with it, counted from
the start of the segments joined by `&`. -/
def paramPosition (name : Bytes) : List Bytes → Option Nat
  | [] => none
  | segment :: rest =>
    if name.isPrefixOf segment then some name.length
    else (paramPosition name rest).map (segment.length + 1 + ·)

section Segments
variable {name : Bytes}

/-- A name without `&` starts a string if and only if it starts its first segment. -/
theorem starts_segment_iff (plain : ampersand ∉ name) (segment rest : Bytes) :
    name <+: segment ++ ampersand :: rest ↔ name <+: segment := by
  refine ⟨fun starts => ?_, fun starts => starts.trans (List.prefix_append _ _)⟩
  rcases List.prefix_or_prefix_of_prefix starts (List.prefix_append segment _) with inside | longer
  · exact inside
  · -- The name would go on with the `&` that ends the segment.
    obtain ⟨tail, rfl⟩ := longer
    cases tail with
    | nil => exact (List.append_nil segment).symm ▸ List.prefix_refl segment
    | cons c tail =>
      have same : c = ampersand :=
        (List.cons_prefix_cons.mp ((List.prefix_append_right_inj segment).mp starts)).1
      exact absurd (same ▸ List.mem_append_right segment List.mem_cons_self) plain

private theorem splitOn_segment {segment : Bytes} (whole : ampersand ∉ segment) (rest : Bytes) :
    (segment ++ ampersand :: rest).splitOn ampersand = segment :: rest.splitOn ampersand := by
  rw [List.splitOn_append_cons_of_beq _ _ (beq_self_eq_true ampersand), List.splitOn_eq_singleton whole]
  rfl

private theorem paramPosition_matched (plain : ampersand ∉ name) {query : Bytes}
    (starts : name <+: query) :
    paramPosition name (query.splitOn ampersand) = some name.length := by
  by_cases several : ampersand ∈ query
  · obtain ⟨segment, rest, rfl, whole⟩ := List.eq_append_cons_of_mem several
    rw [splitOn_segment whole, paramPosition,
      if_pos (List.isPrefixOf_iff_prefix.mpr ((starts_segment_iff plain _ _).mp starts))]
  · rw [List.splitOn_eq_singleton several, paramPosition, if_pos (List.isPrefixOf_iff_prefix.mpr starts)]

private theorem paramPosition_last {query : Bytes} (whole : ampersand ∉ query)
    (other : ¬ name <+: query) :
    paramPosition name (query.splitOn ampersand) = none := by
  rw [List.splitOn_eq_singleton whole, paramPosition, if_neg (mt List.isPrefixOf_iff_prefix.mp other)]
  rfl

private theorem paramPosition_next {segment : Bytes} (whole : ampersand ∉ segment) (rest : Bytes)
    (other : ¬ name <+: segment ++ ampersand :: rest) :
    paramPosition name ((segment ++ ampersand :: rest).splitOn ampersand) =
      (paramPosition name (rest.splitOn ampersand)).map (segment.length + 1 + ·) := by
  have unmatched : ¬ name <+: segment := fun starts => other (starts.trans (List.prefix_append _ _))
  rw [splitOn_segment whole, paramPosition, if_neg (mt List.isPrefixOf_iff_prefix.mp unmatched)]

/-- The place is inside the string, or at its end when the value is empty. -/
theorem paramPosition_le {segments : List Bytes} {position : Nat}
    (found : paramPosition name segments = some position) :
    position ≤ ([ampersand].intercalate segments).length := by
  induction segments generalizing position with
  | nil => cases found
  | cons segment rest ih =>
    rw [paramPosition] at found
    split at found
    · rename_i starts
      have here := (List.isPrefixOf_iff_prefix.mp starts).length_le
      cases found
      cases rest with
      | nil => simpa using here
      | cons next others =>
        rw [List.intercalate_cons_cons, List.length_append, List.length_append]
        omega
    · obtain ⟨later, further, rfl⟩ := Option.map_eq_some_iff.mp found
      cases rest with
      | nil => cases further
      | cons next others =>
        have bound := ih further
        rw [List.intercalate_cons_cons, List.length_append, List.length_append, List.length_singleton]
        omega

end Segments

/-! ## Both find the same -/

section Search
variable (memory : Nat → UInt8) (query queryLen : Nat) {name : Bytes}

private theorem nameAt_staysIn (p remaining : Nat) :
    StaysIn memory p (p + remaining) (nameAt name p remaining)
      fun found => found = true ↔ name <+: slice memory p remaining := by
  unfold nameAt
  split
  · rename_i fits
    refine (memcmp_staysIn memory p name).mono (Nat.le_refl p) (Nat.add_le_add_left fits p) ?_
    rintro _ rfl
    obtain ⟨more, rfl⟩ := Nat.exists_eq_add_of_le fits
    rw [decide_eq_true_eq, slice_add, List.prefix_iff_eq_take, List.take_left' (slice_length ..)]
    exact eq_comm
  · rename_i short
    refine .pure ⟨Bool.noConfusion, fun starts => absurd ?_ short⟩
    simpa using starts.length_le

private theorem getQueryParamFrom_staysIn (nonempty : name ≠ []) (plain : ampersand ∉ name)
    (p : Nat) (after : query ≤ p) :
    StaysIn memory p (query + queryLen) (getQueryParamFrom query queryLen name p) fun found =>
      found =
        (paramPosition name ((slice memory p (query + queryLen - p)).splitOn ampersand)).map (p + ·) := by
  rw [getQueryParamFrom]
  split
  · rename_i inside
    have remaining : queryLen - (p - query) = query + queryLen - p := by omega
    have bound : p + (query + queryLen - p) = query + queryLen := by omega
    rw [remaining]
    refine (bound ▸ nameAt_staysIn memory p (query + queryLen - p)).bind fun found starts_iff => ?_
    cases found with
    | true => exact .pure (by rw [paramPosition_matched plain (starts_iff.mp rfl)]; rfl)
    | false =>
      have other : ¬ name <+: slice memory p (query + queryLen - p) := mt starts_iff.mpr Bool.false_ne_true
      refine (bound ▸ memchr_staysIn memory p ampersand (query + queryLen - p)).bind fun found => ?_
      cases found with
      | none => exact fun whole => .pure (by rw [paramPosition_last whole other]; rfl)
      | some next =>
        rintro ⟨k, place, within, here, whole⟩
        have cut : slice memory p (query + queryLen - p) =
            slice memory p k ++
              ampersand :: slice memory (next.val + 1) (query + queryLen - (next.val + 1)) := by
          have split : query + queryLen - p = k + (query + queryLen - (next.val + 1) + 1) := by omega
          rw [split, slice_add, slice_succ, here, place]
        rw [cut] at other ⊢
        rw [paramPosition_next whole _ other, slice_length, Option.map_map]
        refine (getQueryParamFrom_staysIn nonempty plain (next.val + 1) (by omega)).mono (by omega)
          (Nat.le_refl _) ?_
        rintro _ rfl
        congr 1
        funext position
        rw [place]
        exact (by omega : p + k + 1 + position = p + (k + 1 + position))
  · rename_i past
    have none_left : query + queryLen - p = 0 := by omega
    refine .pure ?_
    rw [none_left, slice, List.range'_zero, List.map_nil,
      paramPosition_last List.not_mem_nil (mt List.prefix_nil.mp nonempty)]
    rfl
termination_by query + queryLen - p
decreasing_by
  have := next.property
  omega

/-- The search finds the first parameter of that name, and reads nothing outside the query
string. -/
theorem getQueryParam_staysIn (nonempty : name ≠ []) (plain : ampersand ∉ name) :
    StaysIn memory query (query + queryLen) (getQueryParam query queryLen name) fun found =>
      found = (paramPosition name ((slice memory query queryLen).splitOn ampersand)).map (query + ·) := by
  have found := getQueryParamFrom_staysIn memory query queryLen nonempty plain query (Nat.le_refl query)
  rwa [Nat.add_sub_cancel_left] at found

end Search

/-- **Parameter lookup equals splitting.** For every query string and name, the search ends,
gives the place after the name in the first segment between ampersands that starts with it, and
reads nothing outside the string. -/
theorem query_param_search (memory : Nat → UInt8) (query queryLen : Nat) (name : Bytes)
    (nonempty : name ≠ [])
    (plain : ampersand ∉ name) :
    (getQueryParam query queryLen name memory).1 =
      (paramPosition name ((slice memory query queryLen).splitOn ampersand)).map (query + ·) ∧
    ∀ q ∈ (getQueryParam query queryLen name memory).2, query ≤ q ∧ q < query + queryLen :=
  have found := getQueryParam_staysIn memory query queryLen nonempty plain
  ⟨found.result, found.reads⟩

/-- A query that starts with `aq=`, a zero byte and an empty segment: `q=` is found in the
segment `q=34`. -/
theorem query_param_search_later :
    let memory : Nat → UInt8 := fun p => [63, 97, 113, 61, 0, 38, 38, 113, 61, 51, 52, 38].getD p 0
    (getQueryParam 1 11 [113, 61] memory).1 = some 9 := by
  intro memory
  rw [(query_param_search memory 1 11 [113, 61] (by decide) (by decide)).1]
  decide

end H2oTpcc
