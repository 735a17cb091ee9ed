import DirectoryWatch.Failure

/-!
# File systems

The two questions that are asked of a file system, answered from a state of the world that every
question may change: nothing is said here about two answers agreeing with each other.
-/
namespace DirectoryWatch

structure FileSystem (World : Type) where
  /-- Whether the path is a directory. A path that does not exist is none. -/
  isDirectory : Path → World → Except Fault Bool × World
  entries : Path → World → Except Fault (List Path) × World
  /-- The directory that relative paths start from. -/
  workingDirectory : Path
  /-- The most directories that one walk may take up. -/
  walkLimit : World → Nat

end DirectoryWatch
