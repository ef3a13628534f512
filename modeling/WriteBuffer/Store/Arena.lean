import WriteBuffer.Allocation
import WriteBuffer.Store.Chunks

/-!
Append-only storage of entries. An entry is first a draft, a buffer with a handle of its own that
may be filled at will; publishing the draft makes its bytes readable under the handle for good.
-/
namespace WriteBuffer

/-- The name of an entry in its arena. -/
structure Handle where
  index : UInt32
deriving DecidableEq, Repr, Ord

/-- The handle that never names an entry. -/
def Handle.nowhere : Handle := ⟨4294967295⟩

/-- A buffer for an entry that is not published yet. -/
structure Draft where
  arena : Nat
  handle : Handle
  bytes : Bytes
deriving DecidableEq, Repr

namespace Draft

/-- The text that describes a draft without its bytes. -/
def describe (draft : Draft) : String :=
  "EntryBuf \x7b handle: KeyHandle(" ++ toString draft.handle.index.toNat ++ "), len: "
    ++ toString draft.bytes.length ++ " \x7d"

/-- Replaces the bytes of a draft by as many others. -/
def fill (draft : Draft) (bytes : Bytes) : Except Failure Draft :=
  if bytes.length = draft.bytes.length then .ok { draft with bytes }
  else .error .lengthMismatch

end Draft

/-- Published entries by handle; `id` tells the drafts of one arena from those of another. -/
structure Arena where
  id : Nat
  entries : ChunkStore Bytes := .empty
  publishedBytes : Nat := 0

namespace Arena

/-- Hands out a zeroed draft under the next handle, which is taken even if the draft is too large to
be had. -/
def allocate (arena : Arena) (length : Nat) : Outcome Arena Draft :=
  let (entries, reserved) := arena.entries.reserve
  ({ arena with entries }, do
    let index ← reserved
    return ⟨arena.id, ⟨index⟩, ← zeroedBuffer length⟩)

/-- Makes the bytes of a draft readable under its handle. -/
def publish (arena : Arena) (draft : Draft) : Except Failure Arena :=
  if draft.arena ≠ arena.id then .error .foreignBuffer
  else
    match arena.entries.publish draft.handle.index draft.bytes with
    | (_, .error failure) => .error failure
    | (entries, .ok ()) =>
      .ok { arena with entries, publishedBytes := arena.publishedBytes + draft.bytes.length }

def get (arena : Arena) (handle : Handle) : Except Failure Bytes :=
  match arena.entries.get? handle.index with
  | some bytes => .ok bytes
  | none => .error (.unpublishedHandle handle.index)

def size (arena : Arena) : Nat := arena.entries.size

/-- The memory an arena takes beyond an empty one: the published bytes, 16 bytes an entry for its
place and length, and 24 bytes for each slot of a chunk. -/
def memory (arena : Arena) : Nat :=
  arena.publishedBytes + 16 * arena.size + 24 * arena.entries.allocatedSlots

/-- The end of the text that describes an arena, behind its identity. -/
def describe (arena : Arena) : String :=
  "entries: " ++ toString arena.size ++ " \x7d"

end Arena

end WriteBuffer
