import W2.Host.Buffer

/-!
# Images that are rejected

The Mac program's `main` and `W2Uploader::upload` reject an image that they cannot read with an
exception. The two differ in what they have sent by then: `main` unlocks and erases the flash
before it looks at the file, `upload` reads and checks the file first.
-/

namespace W2.Host

open Mips Console

namespace Mac

/-- How a function of the Mac program ends: it returns, an assertion fails, it waits for an
acknowledgement that does not come, or it throws. -/
inductive Ending
  | returned
  | aborted
  | waiting
  | threw
  deriving DecidableEq, Repr

abbrev Result := Ending × Client

def Result.andThen (r : Result) (rest : Client → Result) : Result :=
  match r.1 with
  | .returned => rest r.2
  | e => (e, r.2)

def writeBytes (c : Client) (request : List Byte) : Result :=
  match (c.fate c.sent.length).write with
  | .accepted (n + 1) => (.returned, ⟨c.fate, c.sent ++ [request.take (n + 1)]⟩)
  | _ => (.aborted, c)

def waitForAck (c : Client) : Result :=
  if (c.fate (c.sent.length - 1)).ack then (.returned, c) else (.waiting, c)

def command (c : Client) (request : List Byte) : Result :=
  Result.andThen (writeBytes c request) waitForAck

def setUpFlash (c : Client) : Result :=
  Result.andThen (writeBytes c (ascii "a")) fun c =>
    Result.andThen (command c disableSpecialSeqInstr) fun c =>
      Result.andThen (command c unlockFlashInstr) fun c => command c eraseFlashInstr

end Mac

namespace Mac

end Mac

end W2.Host
