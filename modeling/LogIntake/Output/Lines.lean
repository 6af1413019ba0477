import LogIntake.Json.Writer

/-!
# JSON lines

Batches of entries written to a stream as lines of JSON, one entry a line. The stream may fail
within the text of an entry or at the line break after it. A failure ends the batch: what the stream
took stays, the rest of the batch is left out, and the next batch goes on from there.
-/
set_option autoImplicit false

namespace LogIntake.Output

inductive Fate where
  | whole
  /-- The stream takes this many bytes of the text, and fails. -/
  | cut (bytes : Nat)
  /-- The stream takes the text and fails at the line break. -/
  | unbroken
  deriving DecidableEq, Repr

def entryText (entry : Entry) : Bytes := Utf8.encode (String.ofList (Json.writeEntry entry))

def lineBreak : UInt8 := 0x0a

def Fate.taken (fate : Fate) (entry : Entry) : Bytes :=
  match fate with
  | whole => entryText entry ++ [lineBreak]
  | cut bytes => (entryText entry).take bytes
  | unbroken => entryText entry

structure Lines where
  /-- What the stream took of each entry that was begun; the last one comes first. -/
  pieces : List Bytes := []
  /-- How many entries were begun, which numbers the next one. -/
  begun : Nat := 0
  flushes : Nat := 0
  deriving DecidableEq, Repr, Inhabited

namespace Lines

def content (lines : Lines) : Bytes := lines.pieces.reverse.flatten

def write (fate : Fate) (lines : Lines) (entry : Entry) : Lines :=
  { lines with pieces := fate.taken entry :: lines.pieces, begun := lines.begun + 1 }

@[simp] theorem content_write (fate : Fate) (lines : Lines) (entry : Entry) :
    (lines.write fate entry).content = lines.content ++ fate.taken entry := by
  simp [content, write]

/-- Writes the entries of a batch up to the first that fails. -/
def writeEntries (fates : Nat → Fate) (lines : Lines) : Batch → Lines
  | [] => lines
  | entry :: rest =>
    let fate := fates lines.begun
    if fate = .whole then writeEntries fates (lines.write fate entry) rest
    else lines.write fate entry

/-- Writes a batch and flushes the stream, whether or not the batch failed. -/
def writeBatch (fates : Nat → Fate) (lines : Lines) (batch : Batch) : Lines :=
  let lines := lines.writeEntries fates batch
  { lines with flushes := lines.flushes + 1 }

def writeBatches (fates : Nat → Fate) (lines : Lines) (batches : List Batch) : Lines :=
  batches.foldl (writeBatch fates) lines

end Lines

end LogIntake.Output
