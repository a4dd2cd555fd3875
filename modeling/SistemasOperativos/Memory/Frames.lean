import SistemasOperativos.Memory.State

/-!
# Frames

The frames of the memory and their assignment to processes (`memory/src/utils.c`, and the first
part of `memory/src/page_table.c`).
-/

namespace SistemasOperativos

/-! ## The bitmap -/

/-- `find_first_unassigned_frame`, `none` for its -1. -/
def findFirstUnassignedFrame (cfg : MemoryConfig) (bitmap : List Bool) : Option ℕ :=
  (List.range cfg.framesInMemory).find? fun i => bitmap[i]? == some false

/-- `frame_set_assigned`. -/
def frameSetAssigned (bitmap : List Bool) (index : ℕ) : List Bool :=
  bitmap.set index true

/-- `frame_clear_assigned`.  With index -1 the library clears no bit of the bitmap. -/
def frameClearAssigned (bitmap : List Bool) (index : ℤ) : List Bool :=
  if 0 ≤ index then bitmap.set index.toNat false else bitmap

/-! ## The frames of a process -/

/-- The entry has a frame. -/
def FrameEntry.assigned (entry : FrameEntry) : Bool :=
  entry.frame ≠ -1

/-- `has_free_frame`. -/
def hasFreeFrame (cfg : MemoryConfig) (process : ProcessFrame) : Bool :=
  process.frames.countP FrameEntry.assigned < cfg.framesPerProcess

/-- `find_first_free_frame`, with the place of the entry found. -/
def findFirstFreeFrame (process : ProcessFrame) : Option (FrameEntry × ℕ) :=
  process.frames.zipIdx.find? fun entry => entry.1.assigned

/-- `increment_clock_hand`. -/
def incrementClockHand (cfg : MemoryConfig) (clockHand : ℕ) : ℕ :=
  if cfg.framesInMemory ≤ clockHand + 1 then (clockHand + 1) % cfg.framesInMemory
  else clockHand + 1

/-- The loop of `assign_process_frames`. -/
def assignFrames (cfg : MemoryConfig) :
    ℕ → List Bool → List FrameEntry → List Bool × List FrameEntry
  | 0, bitmap, frames => (bitmap, frames)
  | n + 1, bitmap, frames =>
      match findFirstUnassignedFrame cfg bitmap with
      | some index =>
          assignFrames cfg n (frameSetAssigned bitmap index) (frames ++ [⟨index, none⟩])
      | none => assignFrames cfg n bitmap frames

namespace Memory

variable {Swap : Type}

/-- `assign_process_frames`.  Its result is the index of the new list. -/
def assignProcessFrames (cfg : MemoryConfig) (m : Memory Swap) : Memory Swap :=
  { m with
    framesBitmap := (assignFrames cfg cfg.framesPerProcess m.framesBitmap []).1
    processesFrames := m.processesFrames ++
      [⟨(assignFrames cfg cfg.framesPerProcess m.framesBitmap []).2, 0⟩] }

/-- `unassign_process_frames`. -/
def unassignProcessFrames (k : ℕ) (m : Memory Swap) : Option (Memory Swap) :=
  match m.processesFrames[k]? with
  | none => none
  | some process =>
      some { m with
        framesBitmap := process.frames.foldl (fun bitmap entry =>
          frameClearAssigned bitmap entry.frame) m.framesBitmap
        processesFrames := m.processesFrames.set k
          { process with frames := process.frames.map fun _ => ⟨-1, none⟩ } }

end Memory

end SistemasOperativos
