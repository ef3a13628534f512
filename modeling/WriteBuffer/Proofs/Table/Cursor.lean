import Mathlib
import WriteBuffer.MemTable
import WriteBuffer.Proofs.Cursor.Bisimulation
import WriteBuffer.Proofs.Cursor.Following

/-!
The cursors that tables hand out move what they wrap and nothing else, so a cursor of a table
follows what the moves along its list or its run follow.
-/
namespace WriteBuffer

theorem Moves.Carries.execute {ι κ : Type} {inner : Moves ι} {outer : Moves κ} {wrap : ι → κ}
    (carries : outer.Carries inner wrap) (cursor : ι) (command : CursorCommand) :
    outer.execute (wrap cursor) command
      = (wrap (inner.execute cursor command).1, (inner.execute cursor command).2) := by
  have bisimilar : inner.Bisimilar outer fun a b => b = wrap a := by
    refine ⟨fun {a b} same => by rw [same, carries.valid], fun {a b} same => by rw [same, carries.entry],
      ?_⟩
    rintro a _ rfl motion
    rw [carries.move]
    cases inner.move motion a <;> exact rfl
  have bounded : command.IsStep = true ∨ ∀ {a b}, b = wrap a → inner.span a = outer.span b :=
    .inr fun {a b} same => by rw [same, carries.span]
  obtain ⟨stops, same⟩ := bisimilar.execute (a := cursor) rfl bounded
  exact Prod.ext stops same.symm

theorem BucketCursor.carries (lists : Nat → Moves (Option NodeId)) (bucket : Nat) :
    (moves lists).Carries (lists bucket) fun place => { bucket, place } := by
  constructor <;> intros <;> rfl

namespace TableCursor

variable (runs : Moves RunCursor) (lists : Moves BucketCursor)
  (groups : Moves (GroupCursor BucketCursor))

theorem carries_nothing : (moves runs lists groups).Carries Moves.ofNothing fun _ => nothing := by
  constructor <;> intros <;> rfl

theorem carries_run : (moves runs lists groups).Carries runs run := by
  constructor <;> intros <;> rfl

theorem carries_list : (moves runs lists groups).Carries lists list := by
  constructor <;> intros <;> rfl

theorem carries_group : (moves runs lists groups).Carries groups group := by
  constructor <;> intros <;> rfl

end TableCursor

namespace MemTable

variable {shelf : Shelf} {rule : PrefixRule} {lists : Nat → Moves (Option NodeId)}
  {openBucket : Bytes → Except Failure (Option BucketCursor)} {order : KeyOrder}
  {entries : List Bytes}

theorem bucketMoves_nothing :
    (bucketMoves shelf rule lists openBucket).Follows order [] fun _ => .nothing :=
  (Moves.ofNothing_follows order).carried (TableCursor.carries_nothing _ _ _)

theorem bucketMoves_run {place : Option Nat → RunCursor}
    (follows : (RunCursor.moves shelf).Follows order entries place) :
    (bucketMoves shelf rule lists openBucket).Follows order entries fun at? => .run (place at?) :=
  follows.carried (TableCursor.carries_run _ _ _)

theorem bucketMoves_list {place : Option Nat → Option NodeId} {bucket : Nat}
    (follows : (lists bucket).Follows order entries place) :
    (bucketMoves shelf rule lists openBucket).Follows order entries fun at? =>
      .list { bucket, place := place at? } :=
  (follows.carried (BucketCursor.carries lists bucket)).carried (TableCursor.carries_list _ _ _)

theorem moves_eq (table : MemTable) : ∃ rule lists openBucket,
    table.moves = bucketMoves table.shelf rule lists openBucket := by
  cases table <;> exact ⟨_, _, _, rfl⟩

end MemTable

end WriteBuffer
