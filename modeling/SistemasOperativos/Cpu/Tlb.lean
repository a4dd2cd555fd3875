import SistemasOperativos.Library.Machine
import SistemasOperativos.Shared.Pcb
import Mathlib.Data.List.FinRange
import Mathlib.Logic.Function.Basic

/-!
# The TLB

`cpu/src/tlb.c`.  The entries are an array of `tlbEntryQty` entries, and the victims a queue of
pointers to them.  The calls also note what they do with `tlb_mutex`, as they would if it never
made them wait.
-/

namespace SistemasOperativos

/-! ## State -/

/-- `enum e_replaceAlgorithm`. -/
inductive TlbAlgorithm
  | fifo | lru
deriving DecidableEq, Repr

/-- `t_tlb_entry`. -/
structure TlbEntry where
  page : Word
  frame : Word
  isFree : Bool
deriving DecidableEq, Repr

/-- `t_tlb` and the counters.  A pointer to an entry is its place, and a null pointer `none`. -/
structure Tlb (n : ℕ) where
  entries : Fin n → TlbEntry
  victims : List (Option (Fin n))
  hitCounter : ℕ
  missCounter : ℕ

/-- What the operations read besides the TLB.  `lru_tlb` hands `list_remove_by_condition` the
`t_pQueue` of the victims in place of a `t_list`: which pointer it gets back, where it gets one,
depends on what lies behind. -/
structure TlbSettings (n : ℕ) where
  replaceAlgorithm : TlbAlgorithm
  listRemove : Tlb n → Fin n → Option (Fin n)

/-- Settings for FIFO, which never asks what `list_remove_by_condition` returns. -/
def TlbSettings.fifo (n : ℕ) : TlbSettings n where
  replaceAlgorithm := .fifo
  listRemove _ _ := none

/-- Settings for LRU where `list_remove_by_condition` finds nothing. -/
def TlbSettings.lru (n : ℕ) : TlbSettings n where
  replaceAlgorithm := .lru
  listRemove _ _ := none

/-- What a call does with `tlb_mutex`. -/
inductive MutexOp
  | lock | unlock
deriving DecidableEq, Repr

namespace Tlb

variable {n : ℕ}

/-- `create_tlb`. -/
def create (n : ℕ) : Tlb n where
  entries _ := ⟨0, 0, true⟩
  victims := []
  hitCounter := 0
  missCounter := 0

/-- The entry is in use. -/
def InUse (tlb : Tlb n) (i : Fin n) : Prop :=
  (tlb.entries i).isFree = false

instance (tlb : Tlb n) : DecidablePred tlb.InUse :=
  fun i => inferInstanceAs (Decidable ((tlb.entries i).isFree = false))

/-! ## Lookups -/

/-- `lru_tlb`. -/
def lruTlb (settings : TlbSettings n) (i : Fin n) (tlb : Tlb n) : Tlb n :=
  { tlb with victims := tlb.victims ++ [settings.listRemove tlb i] }

/-- The locals of `get_tlb_frame`, and what it has done with the mutex. -/
structure Lookup (n : ℕ) where
  tlb : Tlb n
  frame : Word
  mutex : List MutexOp

/-- The test of the loop of `get_tlb_frame`. -/
def Matches (tlb : Tlb n) (page : Word) (i : Fin n) : Prop :=
  (tlb.entries i).page = page ∧ tlb.InUse i

instance (tlb : Tlb n) (page : Word) : DecidablePred (tlb.Matches page) :=
  fun i => inferInstanceAs (Decidable ((tlb.entries i).page = page ∧ tlb.InUse i))

/-- One iteration of the loop of `get_tlb_frame`. -/
def lookupEntry (settings : TlbSettings n) (page : Word) (lookup : Lookup n) (i : Fin n) :
    Lookup n :=
  if lookup.tlb.Matches page i then
    let tlb :=
      match settings.replaceAlgorithm with
      | .fifo => lookup.tlb
      | .lru => lookup.tlb.lruTlb settings i
    { tlb := { tlb with hitCounter := tlb.hitCounter + 1 }
      frame := (lookup.tlb.entries i).frame
      mutex := lookup.mutex ++ [.lock, .unlock] }
  else { lookup with mutex := lookup.mutex ++ [.lock] }

/-- `get_tlb_frame`. -/
def getTlbFrame (settings : TlbSettings n) (page : Word) (tlb : Tlb n) : Lookup n :=
  let lookup := (List.finRange n).foldl (lookupEntry settings page) ⟨tlb, -1, []⟩
  if lookup.frame = -1 then
    { lookup with tlb := { lookup.tlb with missCounter := lookup.tlb.missCounter + 1 } }
  else lookup

/-! ## Additions -/

/-- The search of `add_tlb_entry` for a free entry. -/
def findFree (tlb : Tlb n) : List (Fin n) → Option (Fin n) × List MutexOp
  | [] => (none, [])
  | i :: rest =>
      if (tlb.entries i).isFree then (some i, [.lock, .unlock])
      else ((findFree tlb rest).1, .lock :: (findFree tlb rest).2)

/-- An entry is filled and put at the end of the victims. -/
def fill (i : Fin n) (page frame : Word) (tlb : Tlb n) : Tlb n :=
  { tlb with
    entries := Function.update tlb.entries i ⟨page, frame, false⟩
    victims := tlb.victims ++ [some i] }

/-- `add_tlb_entry`.  A null pointer in front of the victims crashes the module. -/
def addTlbEntry (page frame : Word) (tlb : Tlb n) : Option (Tlb n × List MutexOp) :=
  match tlb.findFree (List.finRange n) with
  | (some i, mutex) => some (tlb.fill i page frame, mutex)
  | (none, mutex) =>
      match tlb.victims with
      | [] => some (tlb, mutex ++ [.lock])
      | none :: _ => none
      | some victim :: rest =>
          some ({ tlb with victims := rest }.fill victim page frame, mutex ++ [.lock, .unlock])

/-! ## Removals -/

/-- The test of `drop_tlb_entry`, which does not ask whether the entry is in use. -/
def Names (tlb : Tlb n) (page frame : Word) (i : Fin n) : Prop :=
  (tlb.entries i).page = page ∧ (tlb.entries i).frame = frame

instance (tlb : Tlb n) (page frame : Word) : DecidablePred (tlb.Names page frame) :=
  fun i => inferInstanceAs (Decidable ((tlb.entries i).page = page ∧ (tlb.entries i).frame = frame))

/-- An entry becomes free, and keeps its page and its frame. -/
def free (i : Fin n) (tlb : Tlb n) : Tlb n :=
  { tlb with entries := Function.update tlb.entries i { tlb.entries i with isFree := true } }

/-- The loop of `drop_tlb_entry`. -/
def dropFrom (page frame : Word) (tlb : Tlb n) : List (Fin n) → Tlb n × List MutexOp
  | [] => (tlb, [])
  | i :: rest =>
      if tlb.Names page frame i then (tlb.free i, [.lock, .unlock])
      else ((dropFrom page frame tlb rest).1, .lock :: (dropFrom page frame tlb rest).2)

/-- `drop_tlb_entry`. -/
def dropTlbEntry (page frame : Word) (tlb : Tlb n) : Tlb n × List MutexOp :=
  tlb.dropFrom page frame (List.finRange n)

/-- `clean_tlb`. -/
def cleanTlb (tlb : Tlb n) : Tlb n × List MutexOp :=
  ({ tlb with entries := fun i => { tlb.entries i with isFree := true } }, [.lock, .unlock])

end Tlb

/-! ## Calls -/

/-- A call of one of the operations. -/
inductive TlbAction
  | getTlbFrame (page : Word)
  | addTlbEntry (page frame : Word)
  | dropTlbEntry (page frame : Word)
  | cleanTlb
deriving DecidableEq, Repr

/-- The TLB after a call, and what the call does with the mutex. -/
def Tlb.call {n : ℕ} (settings : TlbSettings n) :
    TlbAction → Tlb n → Option (Tlb n × List MutexOp)
  | .getTlbFrame page, tlb =>
      some ((tlb.getTlbFrame settings page).tlb, (tlb.getTlbFrame settings page).mutex)
  | .addTlbEntry page frame, tlb => tlb.addTlbEntry page frame
  | .dropTlbEntry page frame, tlb => some (tlb.dropTlbEntry page frame)
  | .cleanTlb, tlb => some tlb.cleanTlb

/-- The TLB, created. -/
def tlbMachine {n : ℕ} (settings : TlbSettings n) : Machine (Tlb n) TlbAction where
  initial := Tlb.create n
  step action tlb := (tlb.call settings action).map Prod.fst

end SistemasOperativos
