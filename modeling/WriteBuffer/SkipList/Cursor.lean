import WriteBuffer.Cursor.Moves
import WriteBuffer.SkipList.Basic

/-!
Cursors over a skip list. A cursor is the place of a node and reads the list as it is at each move,
so entries linked in later are met where they belong.
-/
namespace WriteBuffer

namespace SkipList

def entry (nodes : NodeStore) (shelf : Shelf) (id : NodeId) : Except Failure Bytes := do
  shelf.arena.get (← node nodes id).handle

/-- Forward along level 0, backward by a search for the node below the current entry. -/
def moves (list : SkipList) (nodes : NodeStore) (shelf : Shelf) : Moves (Option NodeId) where
  valid place := place.isSome
  entry place := atPlace place (entry nodes shelf)
  next place := atPlace place fun id => list.link nodes (some id) 0
  prev place := atPlace place fun id => do
    list.seekBefore nodes (shelf.isBelowEntry (← entry nodes shelf id))
  seek internalKey _ := list.seek nodes (shelf.isBelowKey internalKey)
  first _ := list.first nodes
  last _ := list.last nodes
  span _ := nodes.size

end SkipList

end WriteBuffer
