import DirectoryWatch.Session.Walk

/-!
# Recording what is watched

A facility that only writes down what it is asked to watch, and can be told to refuse one
directory.
-/
namespace DirectoryWatch

structure Recorder (World : Type) where
  world : World
  accepted : List Path
  refusing : Option Path

namespace Recorder

variable {World : Type}

def start (w : World) (refusing : Option Path) : Recorder World := ⟨w, [], refusing⟩

def stopRefusing (r : Recorder World) : Recorder World := { r with refusing := none }

def refuses (r : Recorder World) (directory : Path) : Bool :=
  r.refusing.any fun p => decide (directory.Same p)

def watch (directory : Path) (r : Recorder World) : Except Fault Unit × Recorder World :=
  if r.refuses directory then
    (.error (.ofText ("refusing to watch " ++ directory.display)), r)
  else (.ok (), { r with accepted := r.accepted ++ [directory] })

def host (fs : FileSystem World) : Host (Recorder World) where
  isDirectory p r :=
    let (answer, w) := fs.isDirectory p r.world
    (answer, { r with world := w })
  entries p r :=
    let (answer, w) := fs.entries p r.world
    (answer, { r with world := w })
  workingDirectory := fs.workingDirectory
  walkLimit r := fs.walkLimit r.world
  watch := watch

end Recorder

end DirectoryWatch
