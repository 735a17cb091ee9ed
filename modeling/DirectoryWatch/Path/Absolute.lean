import DirectoryWatch.Path.Parts

/-!
# Absolute paths

A relative path is read from the working directory. Inner `.` segments and doubled slashes are
dropped, `..` and a trailing slash are kept, and so are exactly two leading slashes, which some
systems read in a way of their own. The empty path has no absolute form.
-/
namespace DirectoryWatch.Path

/-- A path that begins with two slashes and not with three. -/
def hasDoubleRoot (p : Path) : Bool :=
  p.bytes.take 2 = [slash, slash] ∧ p.bytes[2]? ≠ some slash

def endsWithSlash (p : Path) : Bool := p.bytes.getLast? = some slash

def joinAll (base : Path) (components : List Component) : Path :=
  components.foldl (fun p c => p.join ⟨c.bytes⟩) base

/-- The absolute form of a path that is not empty. -/
def absoluteFrom (p workingDirectory : Path) : Path :=
  let inner := p.segments.filterMap Component.ofSegment?
  let full :=
    if p.hasDoubleRoot then joinAll ⟨[slash, slash]⟩ inner
    else if p.isAbsolute then joinAll ⟨[slash]⟩ inner
    else joinAll workingDirectory inner
  if p.endsWithSlash then full.join ⟨[]⟩ else full

def absolute? (p workingDirectory : Path) : Option Path :=
  if p.isEmpty then none else some (p.absoluteFrom workingDirectory)

def home (file workingDirectory : Path) : Path :=
  match file.parent? with
  | some parent =>
    if parent.isEmpty then (ofString ".").absoluteFrom workingDirectory
    else parent.absoluteFrom workingDirectory
  | none => (ofString ".").absoluteFrom workingDirectory

end DirectoryWatch.Path
