import DirectoryWatch.Session.Basic

/-!
# Calls

The operations of a session that answer with the directories they took up, seen as one: a request
is registered or watched, or a directory was created.
-/
namespace DirectoryWatch

inductive Call
  | register (request : Request)
  | watch (request : Request)
  | created (directory : Path)

structure Outcome where
  /-- What the registry made of the request, where the answer tells. -/
  update? : Option Update
  directories : List Path

variable {World : Type}

def Step.map {α β : Type} (f : α → β) (step : Step World α) : Step World β :=
  ⟨step.result.map f, step.session, step.notices, step.world⟩

def Session.call (host : Host World) (s : Session) (w : World) : Call → Step World Outcome
  | .register request =>
    (s.register host request w).map fun done => ⟨some done.update, done.directories⟩
  | .watch request => (s.watch host request w).map (Outcome.mk none)
  | .created directory => (s.directoryCreated host directory w).map (Outcome.mk none)

end DirectoryWatch
