import Argumentation.Text.Stream

/-!
# Sinks

A sink takes bytes up to its capacity. A write that goes over it is taken up to the capacity and
then fails. Flushing may fail too; a sink remembers when it was asked to flush.
-/

namespace Argumentation.Format

/-- A destination of bytes and what it holds. -/
structure Sink where
  /-- The number of bytes that the sink takes in all; unlimited when absent. -/
  capacity : Option Nat := none
  flushFails : Bool := false
  content : List UInt8 := []
  /-- How many bytes the sink held at each flush, the first one first. -/
  flushed : List Nat := []

namespace Sink

/-- The part of some bytes for which a sink has room. -/
def fitting (sink : Sink) (bytes : List UInt8) : List UInt8 :=
  match sink.capacity with
  | some capacity => bytes.take (capacity - sink.content.length)
  | none => bytes

/-- Writes a text. -/
def write (sink : Sink) (text : String) : Except Text.StreamFault Unit × Sink :=
  let bytes := text.toUTF8.data.toList
  let taken := sink.fitting bytes
  (if taken.length < bytes.length then .error .sinkFull else .ok (),
    { sink with content := sink.content ++ taken })

/-- Writes several texts in order, up to the first failure. -/
def writeAll (sink : Sink) : List String -> Except Text.StreamFault Unit × Sink
  | [] => (.ok (), sink)
  | text :: rest =>
    match sink.write text with
    | (.ok _, sink) => writeAll sink rest
    | (.error fault, sink) => (.error fault, sink)

/-- Passes on what was written. -/
def flush (sink : Sink) : Except Text.StreamFault Unit × Sink :=
  (if sink.flushFails then .error .flushFailed else .ok (),
    { sink with flushed := sink.flushed ++ [sink.content.length] })

end Sink

end Argumentation.Format
