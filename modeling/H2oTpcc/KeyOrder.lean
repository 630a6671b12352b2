import H2oTpcc.Keyspace
import H2oTpcc.OrderedCode
import H2oTpcc.RangeRead

/-! The order of the keyspace. The store compares keys as unsigned bytes; the
builders write every component in a code that keeps its order, so within one
table the keys stand in the order of their argument tuples. The range builders
rest on this: the interval between two of their keys holds the rows of one
warehouse, district or order and nothing of any other table. -/
namespace H2oTpcc

/-- One argument of a key builder. -/
inductive Component where
  | id (val : UInt32)
  | name (val : CString)
  deriving DecidableEq

namespace Component

def encode : Component → Bytes
  | id val => kvEncodeU32Be val
  | name val => terminated 0 val

/-- Numbers by value, strings bytewise. Tuples of one builder never set a
number against a string. -/
instance order : Ord Component where
  compare
    | id a, id b => compare a b
    | name a, name b => compare a.1 b.1
    | id _, name _ => .lt
    | name _, id _ => .gt

instance oriented : Std.OrientedOrd Component where
  eq_swap := by
    rintro (a | a) (b | b)
    · exact (Std.OrientedCmp.eq_swap : compare a b = (compare b a).swap)
    · rfl
    · rfl
    · exact (Std.OrientedCmp.eq_swap : compare a.1 b.1 = (compare b.1 a.1).swap)

instance lawful : Std.LawfulEqOrd Component where
  eq_of_compare := by
    rintro (a | a) (b | b) same
    · exact congrArg id (Std.LawfulEqOrd.eq_of_compare (α := UInt32) same)
    · cases same
    · cases same
    · exact congrArg name (Subtype.ext (Std.LawfulEqOrd.eq_of_compare (α := List UInt8) same))

private theorem id_keepsOrder (a b : UInt32) : KeepsOrder encode (id a) (id b) := by
  refine KeepsOrder.of_length (by rfl) ?_
  change compare (kvEncodeU32Be a) (kvEncodeU32Be b) = compare a b
  rw [kvEncodeU32Be_eq, kvEncodeU32Be_eq, compare_bigEndian a.toNat_lt b.toNat_lt]
  exact (compare_uint32 a b).symm

private theorem nul_least (letter : UInt8) (other : letter ≠ 0) : compare 0 letter = .lt := by
  rw [compare_uint8, Nat.compare_eq_lt]
  exact Nat.pos_of_ne_zero fun zero => other (UInt8.toNat_inj.mp zero)

private theorem name_keepsOrder (a b : CString) : KeepsOrder encode (name a) (name b) :=
  terminated_keepsOrder nul_least a b

end Component

/-! ## Keys of one table -/

/-- The arguments of the builder, in the order in which it takes them. -/
def Key.tuple : Key → List Component
  | warehouse wId => [.id wId]
  | district wId dId => [.id wId, .id dId]
  | customer wId dId cId => [.id wId, .id dId, .id cId]
  | customerName wId dId cLast cFirst cId =>
    [.id wId, .id dId, .name cLast, .name cFirst, .id cId]
  | history wId cWId cDId cId stamp => [.id wId, .id cWId, .id cDId, .id cId, .id stamp]
  | item iId => [.id iId]
  | stock wId iId => [.id wId, .id iId]
  | oorder wId dId oId => [.id wId, .id dId, .id oId]
  | newOrder wId dId oId => [.id wId, .id dId, .id oId]
  | orderLine wId dId oId olNumber => [.id wId, .id dId, .id oId, .id olNumber]
  | nextOId wId dId => [.id wId, .id dId]
  | world id => [.id id]

private theorem Key.components_eq (key : Key) : key.components = key.tuple.flatMap Component.encode := by
  cases key <;> simp [components, tuple, Component.encode]

private theorem Key.tuple_keepsOrder (first second : Key) (tables : first.table = second.table) :
    List.Forall₂ (KeepsOrder Component.encode) first.tuple second.tuple := by
  cases first <;> cases second <;> cases tables <;>
    simp [tuple, Component.id_keepsOrder, Component.name_keepsOrder]

/-- Keys of different tables stand as their prefixes do, keys of one table as
their argument tuples. -/
theorem Key.compare_build (host : Endian) (first second : Key) :
    compare (first.build host) (second.build host) =
      (compare (literal first.table.ss) (literal second.table.ss)).then
        (compare first.tuple second.tuple) := by
  rw [build_eq, build_eq]
  by_cases tables : first.table = second.table
  · rw [tables, compare_append_of_length rfl, components_eq, components_eq,
      KeepsOrder.flatMap (first.tuple_keepsOrder second tables)]
  · rw [table_prefixes_selfDelimiting.compare_append tables]
    cases prefixes : compare (literal first.table.ss) (literal second.table.ss) with
    | lt => rfl
    | gt => rfl
    | eq =>
      have same := Std.LawfulEqOrd.eq_of_compare prefixes
      exact absurd (table_prefixes_selfDelimiting.eq_of_isPrefix (by rw [same])) tables

/-- **Key order is tuple order.** Two keys of one builder compare as their
argument tuples do, numbers by value and names bytewise. -/
theorem key_order_is_tuple_order (host : Endian) (first second : Key)
    (tables : first.table = second.table) :
    compare (first.build host) (second.build host) = compare first.tuple second.tuple := by
  rw [Key.compare_build, tables, Std.ReflOrd.compare_self, Ordering.eq_then]

/-- The name `A` stands before `AB`, although the id behind it is larger. -/
theorem key_order_is_tuple_order_names :
    (Key.customerName 1 1 ⟨[65], by decide⟩ ⟨[], by decide⟩ 9).table =
        (Key.customerName 1 1 ⟨[65, 66], by decide⟩ ⟨[], by decide⟩ 2).table ∧
      compare (kvCustomerNameKey 1 1 ⟨[65], by decide⟩ ⟨[], by decide⟩ 9)
        (kvCustomerNameKey 1 1 ⟨[65, 66], by decide⟩ ⟨[], by decide⟩ 2) = .lt :=
  ⟨rfl, (key_order_is_tuple_order .little (.customerName 1 1 ⟨[65], by decide⟩ ⟨[], by decide⟩ 9)
    (.customerName 1 1 ⟨[65, 66], by decide⟩ ⟨[], by decide⟩ 2) rfl).trans (by decide)⟩

/-! ## Ranges -/

private theorem Key.within_iff (host : Endian) (low high key : Key) (tables : low.table = high.table) :
    Within (low.build host) (high.build host) (key.build host) ↔
      key.table = low.table ∧ compare low.tuple key.tuple ≠ .gt ∧
        compare key.tuple high.tuple = .lt := by
  simp only [Within, compare_build, ← tables]
  by_cases inside : key.table = low.table
  · simp [inside, Std.ReflOrd.compare_self]
  · -- the two bounds share their prefix, which stands on one side of any other
    have swapped : compare (literal key.table.ss) (literal low.table.ss) =
      (compare (literal low.table.ss) (literal key.table.ss)).swap := Std.OrientedCmp.eq_swap
    cases prefixes : compare (literal low.table.ss) (literal key.table.ss) with
    | lt => simp [swapped, prefixes, inside]
    | gt => simp [inside]
    | eq =>
      have same := Std.LawfulEqOrd.eq_of_compare prefixes
      exact absurd (table_prefixes_selfDelimiting.eq_of_isPrefix (by rw [same])) inside

/-- Every id but the largest stands in the interval of its range builder. -/
private theorem Component.id_between (last : UInt32) :
    (compare (id 0) (id last) ≠ .gt ∧ compare (id last) (id 0xFFFFFFFF) = .lt) ↔
      last < 0xFFFFFFFF := by
  have low : compare (0 : UInt32) last ≠ .gt := by
    rw [compare_uint32, Ne, Nat.compare_eq_gt]
    exact Nat.not_lt_zero _
  have high : compare last (0xFFFFFFFF : UInt32) = .lt ↔ last < 0xFFFFFFFF := by
    rw [compare_uint32, Nat.compare_eq_lt, UInt32.lt_iff_toNat_lt]
  exact (and_iff_right low).trans high

/-- The id written last by the builder. -/
def Key.lastId : Key → UInt32
  | warehouse wId => wId
  | district _ dId => dId
  | customer _ _ cId => cId
  | customerName _ _ _ _ cId => cId
  | history _ _ _ _ stamp => stamp
  | item iId => iId
  | stock _ iId => iId
  | oorder _ _ oId => oId
  | newOrder _ _ oId => oId
  | orderLine _ _ _ olNumber => olNumber
  | nextOId _ dId => dId
  | world id => id

private theorem Key.tuple_eq (key : Key) : key.tuple = key.tuple.dropLast ++ [.id key.lastId] := by
  cases key <;> rfl

private theorem Key.tuple_length (first second : Key) (tables : first.table = second.table) :
    first.tuple.length = second.tuple.length :=
  (first.tuple_keepsOrder second tables).length_eq

/-- An interval from the id 0 to the largest id of one table holds the keys of
that table that agree with its bounds in every other component. -/
theorem Key.within_ids (host : Endian) (low high key : Key) (tables : low.table = high.table)
    (fronts : low.tuple.dropLast = high.tuple.dropLast) (least : low.lastId = 0)
    (greatest : high.lastId = 0xFFFFFFFF) :
    Within (low.build host) (high.build host) (key.build host) ↔
      key.table = low.table ∧ key.tuple.dropLast = low.tuple.dropLast ∧
        key.lastId < 0xFFFFFFFF := by
  rw [within_iff host low high key tables]
  refine and_congr_right fun table => ?_
  have lengths : low.tuple.dropLast.length = key.tuple.dropLast.length := by
    rw [List.length_dropLast, List.length_dropLast, tuple_length low key table.symm]
  rw [low.tuple_eq, high.tuple_eq, key.tuple_eq, ← fronts, least, greatest,
    last_between lengths, Component.id_between]
  simp only [List.dropLast_concat, eq_comm]

/-- The stock range of a warehouse holds the stock rows of that warehouse and nothing else, up
to the last id, which the exclusive end leaves out. -/
theorem Key.within_stock_range (host : Endian) (wId : UInt32) (key : Key) :
    Within (kvStockRangeBegin wId) (kvStockRangeEnd wId) (key.build host) ↔
      ∃ iId, key = .stock wId iId ∧ iId < 0xFFFFFFFF := by
  refine (within_ids host (.stock wId 0) (.stock wId 0xFFFFFFFF) key rfl rfl rfl rfl).trans ?_
  cases key <;> simp [table, tuple, lastId]

private theorem Key.within_newOrder_range (host : Endian) (wId dId : UInt32) (key : Key) :
    Within (kvNewOrderRangeBegin wId dId) (kvNewOrderRangeEnd wId dId) (key.build host) ↔
      ∃ oId, key = .newOrder wId dId oId ∧ oId < 0xFFFFFFFF := by
  refine (within_ids host (.newOrder wId dId 0) (.newOrder wId dId 0xFFFFFFFF) key
    rfl rfl rfl rfl).trans ?_
  cases key <;> simp [table, tuple, lastId, and_assoc]

private theorem Key.within_orderLine_range (host : Endian) (wId dId oId : UInt32) (key : Key) :
    Within (kvOrderLineRangeBegin wId dId oId) (kvOrderLineRangeEnd wId dId oId)
        (key.build host) ↔
      ∃ olNumber, key = .orderLine wId dId oId olNumber ∧ olNumber < 0xFFFFFFFF := by
  refine (within_ids host (.orderLine wId dId oId 0) (.orderLine wId dId oId 0xFFFFFFFF) key
    rfl rfl rfl rfl).trans ?_
  cases key <;> simp [table, tuple, lastId, and_assoc]

/-- **Range builders delimit exactly their rows.** A key whose last id is not
the largest lies in a range exactly when it is a stock key of the warehouse, a
new-order key of the district, or an order-line key of the order. -/
theorem range_builders_delimit (host : Endian) (key : Key) (below : key.lastId < 0xFFFFFFFF) :
    (∀ wId, Within (kvStockRangeBegin wId) (kvStockRangeEnd wId) (key.build host) ↔
      ∃ iId, key = .stock wId iId) ∧
    (∀ wId dId, Within (kvNewOrderRangeBegin wId dId) (kvNewOrderRangeEnd wId dId)
        (key.build host) ↔ ∃ oId, key = .newOrder wId dId oId) ∧
    (∀ wId dId oId, Within (kvOrderLineRangeBegin wId dId oId) (kvOrderLineRangeEnd wId dId oId)
        (key.build host) ↔ ∃ olNumber, key = .orderLine wId dId oId olNumber) := by
  refine ⟨fun wId => ?_, fun wId dId => ?_, fun wId dId oId => ?_⟩
  · rw [Key.within_stock_range]
    exact exists_congr fun iId => and_iff_left_of_imp fun same => by subst same; exact below
  · rw [Key.within_newOrder_range]
    exact exists_congr fun oId => and_iff_left_of_imp fun same => by subst same; exact below
  · rw [Key.within_orderLine_range]
    exact exists_congr fun olNumber => and_iff_left_of_imp fun same => by subst same; exact below

/-- A stock row of warehouse 255 is inside the range of its own warehouse and outside that of
the next. -/
theorem range_builders_delimit_stock :
    (Key.stock 255 256).lastId < 0xFFFFFFFF ∧
      Within (kvStockRangeBegin 255) (kvStockRangeEnd 255) (kvStockKey 255 256) ∧
      ¬ Within (kvStockRangeBegin 256) (kvStockRangeEnd 256) (kvStockKey 255 256) :=
  have delimit := (range_builders_delimit .little (.stock 255 256) (by decide)).1
  ⟨by decide, (delimit 255).mpr ⟨256, rfl⟩, fun inside => by
    obtain ⟨_, same⟩ := (delimit 256).mp inside
    cases same⟩

end H2oTpcc
