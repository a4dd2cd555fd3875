import SistemasOperativos.Library.Splice
import SistemasOperativos.Shared.Stream

/-!
# Stream buffers

`t_stream_buffer` of `shared/src/serialization.c` while a payload is under construction: a block
of memory that grows by `INITIAL_STREAM_SIZE` bytes until what is to be added fits.
-/

open Splice

namespace SistemasOperativos

/-- A `size_t`. -/
abbrev Size := BitVec 64

/-- `malloc` and `realloc`.  The bytes of a block that nobody has written are whatever they are. -/
structure Heap where
  malloc : ℕ → Bytes
  realloc : Bytes → ℕ → Bytes
  length_malloc : ∀ size, (malloc size).length = size
  length_realloc : ∀ block size, (realloc block size).length = size
  take_realloc : ∀ block size, (realloc block size).take block.length = block.take size

/-- A heap of zeros. -/
def Heap.zeros : Heap where
  malloc size := List.replicate size 0
  realloc block size := block.take size ++ List.replicate (size - block.length) 0
  length_malloc size := List.length_replicate
  length_realloc block size := by
    rw [List.length_append, List.length_take, List.length_replicate]
    omega
  take_realloc block size := by
    rcases Nat.le_total size block.length with hle | hle
    · rw [Nat.sub_eq_zero_of_le hle, List.replicate_zero, List.append_nil, List.take_take,
        Nat.min_eq_right hle]
    · rw [List.take_of_length_le hle, List.take_left]

/-- `t_stream_buffer`, with the `malloc_size` it is given and tested with. -/
structure GrowingStream where
  offset : Word
  mallocSize : Size
  stream : Bytes
  block : stream.length = mallocSize.toNat

/-- `INITIAL_STREAM_SIZE`. -/
def initialStreamSize : Size := 64

/-- `create_stream`. -/
def createStream (heap : Heap) (size : Size) : GrowingStream where
  offset := 0
  mallocSize := size
  stream := heap.malloc size.toNat
  block := heap.length_malloc _

namespace GrowingStream

/-- The body of the loop in `stream_add`. -/
def enlarge (heap : Heap) (buffer : GrowingStream) : GrowingStream where
  offset := buffer.offset
  mallocSize := buffer.mallocSize + initialStreamSize
  stream := heap.realloc buffer.stream (buffer.mallocSize + initialStreamSize).toNat
  block := heap.length_realloc _ _

/-- The loop of `stream_add`.  `none` if it has not ended after `fuel` rounds. -/
def grow (heap : Heap) (size : Size) : ℕ → GrowingStream → Option GrowingStream
  | 0, buffer =>
      if buffer.mallocSize < buffer.offset.setWidth 64 + size then none else some buffer
  | fuel + 1, buffer =>
      if buffer.mallocSize < buffer.offset.setWidth 64 + size then
        grow heap size fuel (buffer.enlarge heap)
      else some buffer

/-- The `memcpy` of `stream_add`, with the step of the offset.  A copy that leaves the source or
the block is `none`. -/
def copy (source : Bytes) (size : Size) (buffer : GrowingStream) : Option GrowingStream :=
  if h : size.toNat ≤ source.length ∧
      buffer.offset.toNat + size.toNat ≤ buffer.mallocSize.toNat then
    some
      { offset := buffer.offset + size.setWidth 32
        mallocSize := buffer.mallocSize
        stream := splice buffer.stream buffer.offset.toNat (source.take size.toNat)
        block := by
          rw [length_splice, buffer.block]
          rw [List.length_take, Nat.min_eq_left h.1, buffer.block]
          exact h.2 }
  else none

/-- `stream_add`. -/
def streamAdd (heap : Heap) (fuel : ℕ) (source : Bytes) (size : Size) (buffer : GrowingStream) :
    Option GrowingStream := do
  let buffer ← buffer.grow heap size fuel
  buffer.copy source size

/-- `stream_add_UINT32P`, `stream_add_UINT32`. -/
def streamAddUINT32 (heap : Heap) (fuel : ℕ) (value : Word) (buffer : GrowingStream) :
    Option GrowingStream :=
  buffer.streamAdd heap fuel value.bytes 4

/-- `stream_add_STRINGP`, `stream_add_STRING`. -/
def streamAddSTRING (heap : Heap) (fuel : ℕ) (source : CString) (buffer : GrowingStream) :
    Option GrowingStream := do
  let size : Word := BitVec.ofNat 32 source.length + 1
  let buffer ← buffer.streamAddUINT32 heap fuel size
  buffer.streamAdd heap fuel (source ++ [0]) (size.setWidth 64)

/-- `stream_add_LIST`. -/
def streamAddLIST {α : Type} (streamAddElem : α → GrowingStream → Option GrowingStream) (heap : Heap)
    (fuel : ℕ) (source : List α) (buffer : GrowingStream) : Option GrowingStream := do
  let buffer ← buffer.streamAddUINT32 heap fuel (BitVec.ofNat 32 source.length)
  source.foldlM (fun buffer elem => streamAddElem elem buffer) buffer

end GrowingStream

/-! ## Sequences of calls -/

/-- A call that adds to a stream.  The function that `stream_add_LIST` is given adds each element
by calls of its own. -/
inductive StreamCall
  | uint32 (value : Word)
  | string (source : CString)
  | list (elems : List (List StreamCall))

mutual

/-- One call. -/
def StreamCall.add (heap : Heap) (fuel : ℕ) : StreamCall → GrowingStream → Option GrowingStream
  | .uint32 value, buffer => buffer.streamAddUINT32 heap fuel value
  | .string source, buffer => buffer.streamAddSTRING heap fuel source
  | .list elems, buffer => do
      let buffer ← buffer.streamAddUINT32 heap fuel (BitVec.ofNat 32 elems.length)
      addElems heap fuel elems buffer

/-- The elements of a list, one after the other. -/
def addElems (heap : Heap) (fuel : ℕ) :
    List (List StreamCall) → GrowingStream → Option GrowingStream
  | [], buffer => some buffer
  | elem :: elems, buffer => do
      let buffer ← addCalls heap fuel elem buffer
      addElems heap fuel elems buffer

/-- Calls, one after the other. -/
def addCalls (heap : Heap) (fuel : ℕ) : List StreamCall → GrowingStream → Option GrowingStream
  | [], buffer => some buffer
  | call :: calls, buffer => do
      let buffer ← call.add heap fuel buffer
      addCalls heap fuel calls buffer

end

/-- A list is added by `stream_add_LIST`. -/
theorem StreamCall.add_list (heap : Heap) (fuel : ℕ) (elems : List (List StreamCall))
    (buffer : GrowingStream) :
    (StreamCall.list elems).add heap fuel buffer =
      buffer.streamAddLIST (addCalls heap fuel) heap fuel elems := by
  have hfold : ∀ buffer, addElems heap fuel elems buffer =
      elems.foldlM (fun buffer elem => addCalls heap fuel elem buffer) buffer := by
    induction elems with
    | nil => exact fun buffer => rfl
    | cons elem elems ih =>
        intro buffer
        rw [addElems, List.foldlM_cons]
        exact congrArg _ (funext ih)
  rw [StreamCall.add, GrowingStream.streamAddLIST]
  exact congrArg _ (funext hfold)

end SistemasOperativos
