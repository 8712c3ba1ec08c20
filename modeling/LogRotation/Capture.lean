/-
  Capturing a stream of bytes into a log, line by line.

  A stream comes in pieces of any size; what is not yet a whole line waits for the next piece, and the
  last line may have no end.

    * RAW     a line is written as it is, with its end;
    * LINES   a line is written with a stamp and without its end, which may be a carriage return and a
              newline; a line that is no text ends the capture.

  A record that could not be written is lost, and the capture goes on.
-/
import LogRotation.Writer

namespace LogRotation

/-! ## Lines -/

/-- The byte that ends a line. -/
def newline : UInt8 := 10

/-- Cuts bytes after each newline.  The lines so far and the bytes of the line that was begun are
given from the last on. -/
def cutInto (lines : List Bytes) (line : Bytes) : Bytes → List Bytes × Bytes
  | [] => (lines.reverse, line.reverse)
  | b :: rest =>
    if b = newline then cutInto ((b :: line).reverse :: lines) [] rest
    else cutInto lines (b :: line) rest

/-- Cuts bytes after each newline; the second part is the line that has no end. -/
def cutLines (bytes : Bytes) : List Bytes × Bytes := cutInto [] [] bytes

/-- A line without its end. -/
def bareLine (line : Bytes) : Bytes :=
  match line.reverse with
  | 10 :: 13 :: rest => rest.reverse
  | 10 :: rest => rest.reverse
  | _ => line

/-- The text of a line. -/
def lineText? (line : Bytes) : Option String := Bytes.text? (bareLine line)

/-! ## Captures -/

/-- A capture under way. -/
structure Capture where
  writer : Writer
  raw : Bool
  /-- The start of a line whose end has not come. -/
  unfinished : Bytes
  /-- Set when the rest of the stream is not wanted. -/
  stopped : Bool

namespace Capture

/-- A capture that has seen nothing. -/
def ofWriter (writer : Writer) (raw : Bool) : Capture := ⟨writer, raw, [], false⟩

/-- Writes one line at the present time. -/
def record (c : Capture) (line : Bytes) : Routine Capture := do
  if c.stopped then return c
  else if c.raw then
    let now ← Routine.request .clock
    return { c with writer := (← c.writer.writeRaw line now).2 }
  else match lineText? line with
    | none => return { c with stopped := true }
    | some text =>
      let now ← Routine.request .clock
      return { c with writer := (← c.writer.writeLine text now).2 }

/-- Writes lines in order. -/
def recordAll (c : Capture) : List Bytes → Routine Capture
  | [] => return c
  | line :: rest => do recordAll (← c.record line) rest

/-- Takes the next piece of the stream. -/
def feed (c : Capture) (piece : Bytes) : Routine Capture :=
  let (lines, last) := cutLines (c.unfinished ++ piece)
  recordAll { c with unfinished := last } lines

/-- Takes pieces in order. -/
def feedAll (c : Capture) : List Bytes → Routine Capture
  | [] => return c
  | piece :: rest => do feedAll (← c.feed piece) rest

/-- Takes the end of the stream, and gives the writer back. -/
def finish (c : Capture) : Routine Writer := do
  if c.unfinished.isEmpty then return c.writer
  else return (← ({ c with unfinished := [] } : Capture).record c.unfinished).writer

end Capture

/-- Puts a configuration to use at the present time and opens its active file. -/
def Writer.openNow (localTime : LocalTime) (config : Config) : Routine.Attempt Error Writer := do
  let now ← Routine.reply .clock
  Writer.ofConfig localTime config now.millis

example : cutLines [97, 10, 98, 13, 10, 99] = ([[97, 10], [98, 13, 10]], [99]) := by decide
example : bareLine [97, 13, 10] = [97] := by decide
example : bareLine [97, 13] = [97, 13] := by decide

end LogRotation
