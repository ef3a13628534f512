import WriteBuffer.KeyOrder
import WriteBuffer.Store.Arena

/-!
Published entries together with the order in which they are to be read. Tables hold handles, and
every question about the entries behind them goes through the shelf.
-/
namespace WriteBuffer

/-- An arena and the order of its entries. -/
structure Shelf where
  order : KeyOrder
  arena : Arena

namespace Shelf

def compareEntry (shelf : Shelf) (handle : Handle) (entry : Bytes) : Except Failure Ordering := do
  shelf.order.compareEntries (← shelf.arena.get handle) entry

def compareKey (shelf : Shelf) (handle : Handle) (internalKey : Bytes) :
    Except Failure Ordering := do
  shelf.order.compareEntryKey (← shelf.arena.get handle) internalKey

def compareHandles (shelf : Shelf) (a b : Handle) : Except Failure Ordering := do
  shelf.compareEntry a (← shelf.arena.get b)

def isBelowEntry (shelf : Shelf) (entry : Bytes) (handle : Handle) : Except Failure Bool := do
  return (← shelf.compareEntry handle entry).isLT

def isBelowKey (shelf : Shelf) (internalKey : Bytes) (handle : Handle) : Except Failure Bool := do
  return (← shelf.compareKey handle internalKey).isLT

/-- Writes a record into a fresh draft and publishes it. -/
def add (shelf : Shelf) (record : Record) : Except Failure (Shelf × Handle) := do
  let (arena, allocated) := shelf.arena.allocate record.size
  let draft ← allocated
  let arena ← arena.publish { draft with bytes := ← record.encode }
  return ({ shelf with arena }, draft.handle)

/-- Publishes records one after the other. -/
def addAll (shelf : Shelf) : List Record → Except Failure (Shelf × List Handle)
  | [] => .ok (shelf, [])
  | record :: rest => do
    let (shelf, handle) ← shelf.add record
    let (shelf, handles) ← addAll shelf rest
    return (shelf, handle :: handles)

/-- Publishes lists of records one after the other. -/
def addRuns (shelf : Shelf) : List (List Record) → Except Failure (Shelf × List (List Handle))
  | [] => .ok (shelf, [])
  | run :: rest => do
    let (shelf, handles) ← shelf.addAll run
    let (shelf, runs) ← addRuns shelf rest
    return (shelf, handles :: runs)

end Shelf

end WriteBuffer
