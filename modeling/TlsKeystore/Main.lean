/-
The program on a real machine.

A path goes to the system as it is; one with a NUL in it would be cut
short there and is refused before. Every draw has a seed of its own from
the system.
-/
import TlsKeystore.CommandLine
import Std.Time.DateTime.Timestamp

namespace TlsKeystore

namespace FileFault

/-- The fault of a system error. -/
def ofCode (code : UInt32) (details : String) : FileFault :=
  match code.toNat with
  | 2 => .missing
  | 17 => .taken
  | 20 => .notDirectory
  | 21 => .isDirectory
  | 36 => .nameTooLong
  | n => .other (details ++ " (os error " ++ toString n ++ ")")

/-- The fault of an error that an action ends with. -/
def ofError : IO.Error → FileFault
  | .alreadyExists _ code details => ofCode code details
  | .otherError code details => ofCode code details
  | .resourceBusy code details => ofCode code details
  | .resourceVanished code details => ofCode code details
  | .unsupportedOperation code details => ofCode code details
  | .hardwareFault code details => ofCode code details
  | .unsatisfiedConstraints code details => ofCode code details
  | .illegalOperation code details => ofCode code details
  | .protocolError code details => ofCode code details
  | .timeExpired code details => ofCode code details
  | .interrupted _ code details => ofCode code details
  | .noFileOrDirectory _ code details => ofCode code details
  | .invalidArgument _ code details => ofCode code details
  | .permissionDenied _ code details => ofCode code details
  | .resourceExhausted _ code details => ofCode code details
  | .inappropriateType _ code details => ofCode code details
  | .noSuchThing _ code details => ofCode code details
  | .unexpectedEof => .other "unexpected end of file"
  | .userError text => .other text

end FileFault

namespace Machine

/-- Does something with a path. -/
def withPath {α : Type} (path : String) (act : IO α) : IO (Except FileFault α) := do
  if path.toList.contains '\x00' then return .error .nulInPath
  try return .ok (← act) catch e => return .error (.ofError e)

/-- Whether the system finds something at a path. -/
def finds (path : String) : IO Bool := do
  return (← withPath path (IO.FS.realPath path)).toOption.isSome

/-- Writes a file. -/
def writeOctets (path : String) (content : Bytes) : IO (Except FileError Unit) := do
  match ← withPath path (IO.FS.Handle.mk path .write) with
  | .error fault => return .error ⟨.createFile, path, fault⟩
  | .ok handle =>
    let written ← withPath path do
      handle.write ⟨content.toArray⟩
      handle.flush
    return written.mapError (⟨.writeFile, path, ·⟩)

/-- Reads a file. -/
def readOctets (path : String) : IO (Except FileError Bytes) := do
  match ← withPath path (IO.FS.Handle.mk path .read) with
  | .error fault => return .error ⟨.openFile, path, fault⟩
  | .ok handle =>
    let content ← withPath path handle.readBinToEnd
    return (content.map (·.data.toList)).mapError (⟨.readFile, path, ·⟩)

instance : MonadHost IO where
  pathExists := finds
  isDirectory path := finds (path ++ "/.")
  createDirectory path := withPath path (IO.FS.createDir path)
  writeOctets := writeOctets
  readOctets := readOctets
  now := do
    let stamp ← Std.Time.Timestamp.now
    return ⟨stamp.toNanosecondsSinceUnixEpoch.val⟩
  draw d := do
    let seed ← IO.getRandomBytes 32
    return (d.run (Entropy.ofSeed seed.data.toList)).1
  print text := do (← IO.getStdout).putStr text

end Machine
end TlsKeystore

/-- Runs the words of the command line. -/
def main (words : List String) : IO UInt32 := do
  let env ← IO.getEnv "KEYSTORE_PASSWORD"
  match ← TlsKeystore.CommandLine.run (m := IO) words env with
  | .ok () => return 0
  | .error refusal =>
    IO.eprintln refusal.message
    return refusal.code.toUInt32
