import Mathlib.Logic.Function.Basic
import H2oTpcc.FdbDatabase
import H2oTpcc.Keyspace
import H2oTpcc.Random

/-! The World handlers of `tfb_handlers.c`: `/db` reads one row, `/updates` reads several
and writes them all anew, `/queries` reads several, and `/cached-worlds` answers from an
array in memory. -/
namespace H2oTpcc
open Stmt

def tfbMaxId : UInt32 := 10000
def tfbMaxQueries : Int32 := 500

/-- `get_random_world_id`, from the seed all requests share. -/
def getRandomWorldId (P : Platform) : Draw UInt32 := do
  let number ← getRandomNumber P tfbMaxId
  return 1 + number

/-- The number in a World row that is there and has at least four bytes. -/
def worldNumber (host : Endian) (value : Option Bytes) : Option UInt32 :=
  match value with
  | none => none
  | some val => if val.length < 4 then none else some (ntohl host ((readUInt32 host).run val).1)

/-- A World row as it is rendered. -/
def worldJson (id randomNumber : UInt32) : Json :=
  .map [("id", .int id.toNat), ("randomNumber", .int randomNumber.toNat)]

/-- `get_query_number` from what `atoi` makes of the parameter, if there is one. -/
def getQueryNumber (parameter : Option Int32) : Nat :=
  let n := parameter.getD 0
  let n := if n < 1 then 1 else n
  let n := if n > tfbMaxQueries then tfbMaxQueries else n
  n.toInt.toNat

/-! ## /db -/

/-- `single_query_ctx_t`. -/
structure SingleQueryCtx where
  id : UInt32 := 0

inductive SingleQueryCallback where
  | onSingleQueryResult

abbrev SingleQueryProg := Prog SingleQueryCtx SingleQueryCallback Bytes Bytes Response

namespace SingleQuery
variable (P : Platform)

def onSingleQueryResult (future : Future Bytes Bytes) : SingleQueryProg Unit := do
  if future.getError ≠ 0 then
    finish (serviceUnavailable "FDB error")
  else
    match worldNumber P.host future.getValue with
    | none => finish (serviceUnavailable "World row not found")
    | some randomNumber =>
      let ctx ← load
      finish (.json (worldJson ctx.id randomNumber))

def dbHandler : SingleQueryProg Unit :=
  openRequest "oom" "fdb failed"
    (do
      let seed ← draw
      store fun ctx => { ctx with id := (getRandomWorldId P).value { seed } })
    (do
      let ctx ← load
      fdbAsyncGet (worldKey P.host ctx.id) .onSingleQueryResult)

end SingleQuery

def dbChain (P : Platform) : Chain Unit SingleQueryCtx SingleQueryCallback Bytes Bytes Response where
  zero := {}
  entry _ := SingleQuery.dbHandler P
  body
    | .onSingleQueryResult => SingleQuery.onSingleQueryResult P

/-! ## /updates -/

/-- `update_ctx_t` with the two arrays of `numQuery` elements that it points to, which
are allocated and freed with it. -/
structure UpdateCtx where
  numQuery : Nat := 0
  numResult : Nat := 0
  ids : Nat → UInt32 := fun _ => 0
  randomNumbers : Nat → UInt32 := fun _ => 0
  /-- Writing, not reading. -/
  phase : Bool := false

inductive UpdateCallback where
  | updateOnRead | updateOnCommit

abbrev UpdateProg := Prog UpdateCtx UpdateCallback Bytes Bytes Response

namespace Update
variable (P : Platform)

/-- The future is not looked at. -/
def updateOnCommit (_ : Future Bytes Bytes) : UpdateProg Unit := do
  let ctx ← load
  forRange ctx.numResult fun i => index i ctx.numQuery
  finish (.json (.array ((List.range ctx.numResult).map fun i =>
    worldJson (ctx.ids i) (ctx.randomNumbers i))))

def updateDoWrites : UpdateProg Unit := do
  store fun ctx => { ctx with phase := true }
  let ctx ← load
  forRange ctx.numResult fun i => do
    index i ctx.numQuery
    fdbSyncSet (worldKey P.host (ctx.ids i)) (uint32Bytes P.host (htonl P.host (ctx.randomNumbers i)))
  fdbAsyncCommit .updateOnCommit

/-- What a row that is missing or too short leaves in its place, to be overwritten. -/
def fillMissing (found : Bool) (ctx : UpdateCtx) : Draw UpdateCtx := do
  if found then return ctx
  else
    let id ← getRandomWorldId P
    return { ctx with randomNumbers := Function.update ctx.randomNumbers ctx.numResult id }

/-- The context after the current row, with its new number. -/
def withRow (found : Bool) (ctx : UpdateCtx) : Draw UpdateCtx := do
  let ctx ← fillMissing P found ctx
  let id ← getRandomWorldId P
  return { ctx with
    randomNumbers := Function.update ctx.randomNumbers ctx.numResult (id - 1)
    numResult := ctx.numResult + 1 }

def updateOnRead (future : Future Bytes Bytes) : UpdateProg Unit := do
  if future.getError ≠ 0 then
    finish (serviceUnavailable "FDB error")
  else
    let seed ← draw
    let ctx ← load
    index ctx.numResult ctx.numQuery
    store fun ctx => (withRow P (worldNumber P.host future.getValue).isSome ctx).value { seed }
    let ctx ← load
    if ctx.numResult < ctx.numQuery then
      index ctx.numResult ctx.numQuery
      fdbAsyncGet (worldKey P.host (ctx.ids ctx.numResult)) .updateOnRead
    else
      updateDoWrites P

/-- The ids at these places, drawn one after the other. -/
def drawIds (ids : Nat → UInt32) : List Nat → Draw (Nat → UInt32)
  | [] => pure ids
  | i :: rest => do drawIds (Function.update ids i (← getRandomWorldId P)) rest

/-- `updates_handler` for what `atoi` made of the parameter. -/
def updatesHandler (parameter : Option Int32) : UpdateProg Unit :=
  let n := getQueryNumber parameter
  openRequest "oom" "fdb failed"
    (do
      let seed ← draw
      store fun ctx => { ctx with
        numQuery := n
        ids := (drawIds P ctx.ids (List.range n)).value { seed } }
      forRange n fun i => index i n)
    (do
      let ctx ← load
      index 0 ctx.numQuery
      fdbAsyncGet (worldKey P.host (ctx.ids 0)) .updateOnRead)

end Update

def updatesChain (P : Platform) :
    Chain (Option Int32) UpdateCtx UpdateCallback Bytes Bytes Response where
  zero := {}
  entry := Update.updatesHandler P
  body
    | .updateOnRead => Update.updateOnRead P
    | .updateOnCommit => Update.updateOnCommit

/-! ## /queries -/

/-- `multi_query_ctx_t` with its two arrays of `numQuery` elements. -/
structure MultiQueryCtx where
  numQuery : Nat := 0
  numResult : Nat := 0
  ids : Nat → UInt32 := fun _ => 0
  randomNumbers : Nat → UInt32 := fun _ => 0

/-- Every read is submitted with `multi_query_next` itself as its callback, by a cast. -/
inductive MultiQueryCallback where
  | multiQueryNext

abbrev MultiQueryProg := Prog MultiQueryCtx MultiQueryCallback Bytes Bytes Response

namespace MultiQuery
variable (P : Platform)

/-- `multi_query_next` as it is called from C, with the context. -/
def multiQueryNext : MultiQueryProg Unit := do
  let ctx ← load
  if ctx.numResult = ctx.numQuery then
    forRange ctx.numResult fun i => index i ctx.numQuery
    finish (.json (.array ((List.range ctx.numResult).map fun i =>
      worldJson (ctx.ids i) (ctx.randomNumbers i))))
  else
    index ctx.numResult ctx.numQuery
    fdbAsyncGet (worldKey P.host (ctx.ids ctx.numResult)) .multiQueryNext

/-- `queries_handler` for what `atoi` made of the parameter. -/
def queriesHandler (parameter : Option Int32) : MultiQueryProg Unit :=
  let n := getQueryNumber parameter
  openRequest "oom" "fdb failed"
    (do
      let seed ← draw
      store fun ctx => { ctx with
        numQuery := n
        ids := (Update.drawIds P ctx.ids (List.range n)).value { seed } }
      forRange n fun i => index i n)
    (multiQueryNext P)

end MultiQuery

/-! ## /cached-worlds -/

section CachedWorlds
variable (P : Platform)

/-- `g_world_cache` as `initialize_tfb_handlers` fills it. -/
def worldCache : Vector UInt16 10001 := Vector.ofFn fun i => (rawDraw P 42 i % 10000).toUInt16

/-- The loop of `cached_worlds_handler`: the ids with the entries read for them, none
where there is no such entry. -/
def cachedRows (cache : Vector UInt16 10001) : Nat → Draw (List (UInt32 × Option UInt16))
  | 0 => pure []
  | n + 1 => do
    let id ← getRandomWorldId P
    let rest ← cachedRows cache n
    return (id, cache[id.toNat]?) :: rest

/-- `cached_worlds_handler`. The test of `g_world_cache` is that of an array's address, so
it always serves from the cache; none when it has read outside of it. -/
def cachedWorldsHandler (parameter : Option Int32) : Draw (Option Response) := do
  let rows ← cachedRows P (worldCache P) (getQueryNumber parameter)
  let rendered := rows.mapM fun row => row.2.map fun number => worldJson row.1 number.toUInt32
  return rendered.map fun rows => .json (.array rows)

end CachedWorlds

section Counts
variable (P : Platform) (ctx : UpdateCtx) (generator : Generator)

/-- At least one row is asked for, whatever the parameter says. -/
theorem getQueryNumber_pos (parameter : Option Int32) : 0 < getQueryNumber parameter := by
  unfold getQueryNumber
  simp only [tfbMaxQueries, gt_iff_lt, Int32.lt_iff_toInt_lt, apply_ite Int32.toInt]
  have one : (1 : Int32).toInt = 1 := rfl
  have most : (500 : Int32).toInt = 500 := rfl
  split <;> split <;> omega

/-- A read callback draws one number more and leaves the ids and the count of the request as
they are. -/
theorem Update.withRow_frame (found : Bool) :
    let after := (Update.withRow P found ctx).value generator
    after.numQuery = ctx.numQuery ∧ after.numResult = ctx.numResult + 1 ∧ after.ids = ctx.ids := by
  cases found <;> exact ⟨rfl, rfl, rfl⟩

end Counts

end H2oTpcc
