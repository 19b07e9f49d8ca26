import LoongsonEjtag.Ctx

/-! # Reading a trace

What a trace says about each stream that crosses the library's boundary: bytes
that arrived and bytes taken from the RX ring, blocks prepared and blocks handed
to the JTAG engine, dwords it reported and bytes flushed back.  Each stream is
the concatenation of what the single events add to it.
-/

namespace LoongsonEjtag

open Lib (Byte Dword)

namespace Event

def arrivedBytes : Event → List Byte
  | .usbOut bytes => bytes
  | _ => []

def consumedBytes : Event → List Byte
  | .consume _ _ _ got => got
  | _ => []

def preparedSeq : Event → List JtagSeq
  | .prepared seq => [seq]
  | _ => []

def handedSeq : Event → List JtagSeq
  | .runBlock seq => [seq]
  | _ => []

def reportedDwords : Event → List Dword
  | .completeTdo dwords => dwords
  | _ => []

def flushedBytes : Event → List Byte
  | .flush bytes => bytes
  | _ => []

/-- A command's own answers and port calls. -/
def isAnswer : Event → Bool
  | .respond _ | .ioManip _ _ | .reconfigure _ _ | .runDirect _ | .complete _ => true
  | .completeTdo dwords => dwords.isEmpty
  | .usbOut _ | .consume _ _ _ _ | .flush _ | .prepared _ | .runBlock _ | .execute _ _
  | .executed _ => false

/-- Events that bring no bytes in and neither start nor end a call of
    `lsejtag_execute`. -/
def isOutput : Event → Bool
  | .usbOut _ | .consume _ _ _ _ | .execute _ _ | .executed _ => false
  | .respond _ | .flush _ | .ioManip _ _ | .reconfigure _ _ | .prepared _ | .runBlock _
  | .runDirect _ | .complete _ | .completeTdo _ => true

/-- Events that say nothing about blocks or TDO data. -/
def isQuiet : Event → Bool
  | .usbOut _ | .consume _ _ _ _ | .execute _ _ | .executed _ => true
  | e => e.isAnswer

end Event

/-! ## Streams -/

/-- Bytes the host has sent. -/
def arrived (trace : List Event) : List Byte := trace.flatMap Event.arrivedBytes

/-- Bytes taken from the RX ring. -/
def consumed (trace : List Event) : List Byte := trace.flatMap Event.consumedBytes

/-- Blocks that became ready. -/
def preparedSeqs (trace : List Event) : List JtagSeq := trace.flatMap Event.preparedSeq

/-- Blocks `lsejtag_run_jtag` handed to the engine. -/
def handedSeqs (trace : List Event) : List JtagSeq := trace.flatMap Event.handedSeq

/-- Dwords reported by `lsejtag_jtag_complete_tdo`. -/
def reported (trace : List Event) : List Dword := trace.flatMap Event.reportedDwords

/-- Bytes `lsejtag_flush_tdo` has sent. -/
def flushed (trace : List Event) : List Byte := trace.flatMap Event.flushedBytes

section append

variable (t u : List Event)

@[simp] theorem arrived_append : arrived (t ++ u) = arrived t ++ arrived u := by simp [arrived]
@[simp] theorem consumed_append : consumed (t ++ u) = consumed t ++ consumed u := by
  simp [consumed]
@[simp] theorem preparedSeqs_append :
    preparedSeqs (t ++ u) = preparedSeqs t ++ preparedSeqs u := by simp [preparedSeqs]
@[simp] theorem handedSeqs_append : handedSeqs (t ++ u) = handedSeqs t ++ handedSeqs u := by
  simp [handedSeqs]
@[simp] theorem reported_append : reported (t ++ u) = reported t ++ reported u := by
  simp [reported]
@[simp] theorem flushed_append : flushed (t ++ u) = flushed t ++ flushed u := by simp [flushed]

end append

section cons

variable (e : Event) (t : List Event)

@[simp] theorem arrived_cons : arrived (e :: t) = e.arrivedBytes ++ arrived t := rfl
@[simp] theorem consumed_cons : consumed (e :: t) = e.consumedBytes ++ consumed t := rfl
@[simp] theorem preparedSeqs_cons : preparedSeqs (e :: t) = e.preparedSeq ++ preparedSeqs t := rfl
@[simp] theorem handedSeqs_cons : handedSeqs (e :: t) = e.handedSeq ++ handedSeqs t := rfl
@[simp] theorem reported_cons : reported (e :: t) = e.reportedDwords ++ reported t := rfl
@[simp] theorem flushed_cons : flushed (e :: t) = e.flushedBytes ++ flushed t := rfl

end cons

@[simp] theorem arrived_nil : arrived [] = [] := rfl
@[simp] theorem consumed_nil : consumed [] = [] := rfl
@[simp] theorem preparedSeqs_nil : preparedSeqs [] = [] := rfl
@[simp] theorem handedSeqs_nil : handedSeqs [] = [] := rfl
@[simp] theorem reported_nil : reported [] = [] := rfl
@[simp] theorem flushed_nil : flushed [] = [] := rfl

/-! ## Quiet events -/

/-- Only quiet events. -/
def AllQuiet (t : List Event) : Prop := ∀ e ∈ t, e.isQuiet = true

namespace AllQuiet

variable {t : List Event} (quiet : AllQuiet t)
include quiet

theorem preparedSeqs_eq : preparedSeqs t = [] := by
  refine List.flatMap_eq_nil_iff.mpr fun e member => ?_
  have := quiet e member
  cases e <;> simp_all [Event.isQuiet, Event.isAnswer, Event.preparedSeq]

theorem handedSeqs_eq : handedSeqs t = [] := by
  refine List.flatMap_eq_nil_iff.mpr fun e member => ?_
  have := quiet e member
  cases e <;> simp_all [Event.isQuiet, Event.isAnswer, Event.handedSeq]

theorem reported_eq : reported t = [] := by
  refine List.flatMap_eq_nil_iff.mpr fun e member => ?_
  have := quiet e member
  cases e <;> simp_all [Event.isQuiet, Event.isAnswer, Event.reportedDwords]

theorem flushed_eq : flushed t = [] := by
  refine List.flatMap_eq_nil_iff.mpr fun e member => ?_
  have := quiet e member
  cases e <;> simp_all [Event.isQuiet, Event.isAnswer, Event.flushedBytes]

end AllQuiet

/-- Only output. -/
def AllOutput (t : List Event) : Prop := ∀ e ∈ t, e.isOutput = true

namespace AllOutput

variable {t : List Event} (output : AllOutput t)
include output

theorem arrived_eq : arrived t = [] := by
  refine List.flatMap_eq_nil_iff.mpr fun e member => ?_
  have := output e member
  cases e <;> simp_all [Event.isOutput, Event.arrivedBytes]

theorem consumed_eq : consumed t = [] := by
  refine List.flatMap_eq_nil_iff.mpr fun e member => ?_
  have := output e member
  cases e <;> simp_all [Event.isOutput, Event.consumedBytes]

end AllOutput

/-- Only answers. -/
def AllAnswers (t : List Event) : Prop := ∀ e ∈ t, e.isAnswer = true

namespace AllAnswers

variable {t : List Event} (answers : AllAnswers t)
include answers

theorem allQuiet : AllQuiet t := by
  intro e member
  have := answers e member
  cases e <;> simp_all [Event.isQuiet, Event.isAnswer]

theorem allOutput : AllOutput t := by
  intro e member
  have := answers e member
  cases e <;> simp_all [Event.isOutput, Event.isAnswer]

end AllAnswers

end LoongsonEjtag
