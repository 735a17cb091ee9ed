import DirectoryWatch.Session.History

/-!
# Logging what is accepted

Any host can be run beside a log of the directories that its facility accepted. The log changes
nothing of what the host answers.
-/
namespace DirectoryWatch

structure Logged (World : Type) where
  world : World
  /-- The directories that were accepted, in order. -/
  accepted : List Path

variable {World : Type}

def Host.logged (host : Host World) : Host (Logged World) where
  isDirectory p log :=
    let (answer, w) := host.isDirectory p log.world
    (answer, { log with world := w })
  entries p log :=
    let (answer, w) := host.entries p log.world
    (answer, { log with world := w })
  workingDirectory := host.workingDirectory
  walkLimit log := host.walkLimit log.world
  watch directory log :=
    match host.watch directory log.world with
    | (.ok (), w) => (.ok (), ⟨w, log.accepted ++ [directory]⟩)
    | (.error fault, w) => (.error fault, { log with world := w })

def Operation.logged : Operation World → Operation (Logged World)
  | .register request => .register request
  | .created directory => .created directory
  | .handle event => .handle event
  | .meanwhile change => .meanwhile fun log => { log with world := change log.world }

end DirectoryWatch
