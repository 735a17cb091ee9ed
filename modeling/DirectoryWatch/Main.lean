import DirectoryWatch.CommandLine.Run
import DirectoryWatch.FileSystem.Known

/-!
# The program

Answers the questions of a run from the real file system, one after the other, and prints what the
run ended with. There is no facility here that watches directories: a run that wants to watch is
refused.
-/
namespace DirectoryWatch.Terminal

/-- The number that the system gives an error. Some calls give it with a minus sign. -/
def errorCode (e : IO.Error) : UInt32 :=
  let code := codeOf e
  if 0x80000000 ≤ code then 0 - code else code
where
  codeOf : IO.Error → UInt32
    | .noFileOrDirectory _ code _ => code
    | .permissionDenied _ code _ => code
    | .inappropriateType _ code _ => code
    | .invalidArgument _ code _ => code
    | .resourceExhausted _ code _ => code
    | .otherError code _ => code
    | _ => 0

def ioError (e : IO.Error) : IoError :=
  match errorCode e with
  | 2 => .notFound
  | 13 => .permissionDenied
  | 20 => .notADirectory
  | 21 => .isADirectory
  | 36 => .nameTooLong
  | 40 => .linkLoop
  | _ => .other (toString e)

def pathText (p : Path) : Except IoError String :=
  match Text.Utf8.decode? p.bytes with
  | some text => .ok text
  | none => .error .notUtf8

def contents (p : Path) : IO (Except IoError Bytes) :=
  match pathText p with
  | .error e => return .error e
  | .ok text => do
    try return .ok (← IO.FS.readBinFile text).toList
    catch e => return .error (ioError e)

def isDirectory (p : Path) : IO (Except Fault Bool) :=
  match pathText p with
  | .error e => return .error ⟨"inspecting " ++ p.quoted, [e.message]⟩
  | .ok text => do
    let here ← IO.currentDir
    try
      let found ← (here / text).metadata
      return .ok (found.type matches .dir)
    catch e =>
      match ioError e with
      | .notFound => return .ok false
      | .notADirectory => return .ok false
      | e => return .error ⟨"inspecting " ++ p.quoted, [e.message]⟩

def entries (p : Path) : IO (Except Fault (List Path)) :=
  match pathText p with
  | .error e => return .error ⟨"reading dir " ++ p.quoted, [e.message]⟩
  | .ok text => do
    let here ← IO.currentDir
    try
      let found ← (here / text).readDir
      return .ok (found.toList.map fun entry => p.join (.ofString entry.fileName))
    catch e => return .error ⟨"reading dir " ++ p.quoted, [(ioError e).message]⟩

def learn (k : Known) : Question → IO Known
  | .isDirectory p => return { k with directories := (p.bytes, ← isDirectory p) :: k.directories }
  | .entries p => return { k with listings := (p.bytes, ← entries p) :: k.listings }
  | .contents p => return { k with files := (p.bytes, ← contents p) :: k.files }

/-- Repeats a run until it asks nothing that is not known. -/
partial def settle (run : Known → Run Known) (k : Known) : IO (Run Known) := do
  let done := run k
  match done.world.unanswered with
  | none => return done
  | some question => settle run (← learn done.world.answers question)

def machine (workingDirectory : Path) : Machine Known where
  toFileSystem := Known.fileSystem workingDirectory
  watch _ k := (.error (.ofText "there is no watch facility"), k)
  read := Known.read

end DirectoryWatch.Terminal

open DirectoryWatch in
def main (words : List String) : IO UInt32 := do
  let here := Path.ofString (toString (← IO.currentDir))
  let levelName ← IO.getEnv "WATCHPOINTS_LOG"
  let run ← Terminal.settle ((Terminal.machine here).run words levelName) .nothing
  for notice in run.log do
    IO.eprintln (notice.level.label ++ " " ++ notice.text)
  IO.print run.ending.output
  if let some complaint := run.ending.complaint? then
    IO.eprintln complaint
  return run.ending.exitCode
