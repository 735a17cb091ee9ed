import DirectoryWatch.FileSystem.Listing
import DirectoryWatch.Proofs.Path.Components
import DirectoryWatch.Proofs.Path.Region
import DirectoryWatch.Registry.Nearest

/-!
# File systems that keep to their answers

Where the answers about directories are settled, each root has one nearest directory: the longest
of the root and its ancestors that is a directory, or the last ancestor. Nearest directories keep
the order of paths, so what the topmost roots stand for covers what all of them stand for.
-/
namespace DirectoryWatch

/-- In every world in which `now` holds, each place is a directory or none, and asking leads to
another such world. -/
structure FileSystem.Decides {World : Type} (fs : FileSystem World)
    (directory : List Component → Bool) (now : World → Prop) : Prop where
  answers : ∀ {w}, now w → ∀ p, (fs.isDirectory p w).1 = .ok (directory p.components)
  keeps : ∀ {w}, now w → ∀ p, now (fs.isDirectory p w).2

namespace Path

variable {directory : List Component → Bool} {p q : Path}

def firstOf (directory : List Component → Bool) : Path → List Path → Path
  | p, [] => p
  | p, q :: rest => if directory p.components then p else firstOf directory q rest

def nearest (directory : List Component → Bool) (p : Path) : Path :=
  firstOf directory p p.ancestors.tail

theorem nearest_of_parent?_eq_none (h : p.parent? = none) : p.nearest directory = p := by
  rw [nearest, ancestors_of_parent?_eq_none h, List.tail_cons, firstOf]

theorem nearest_of_parent? {parent : Path} (h : p.parent? = some parent) :
    p.nearest directory = if directory p.components then p else parent.nearest directory := by
  rw [nearest, ancestors_of_parent? h, List.tail_cons, ancestors_eq_cons parent, firstOf, nearest]

theorem atOrBelow_nearest (p : Path) : p.atOrBelow (p.nearest directory) = true := by
  induction p using parentInduction with
  | top p htop =>
    rw [nearest_of_parent?_eq_none htop]
    exact atOrBelow_refl p
  | child p parent hparent ih =>
    rw [nearest_of_parent? hparent]
    split
    · exact atOrBelow_refl p
    · exact atOrBelow_trans (atOrBelow_parent hparent) ih

/-- The search for a directory goes no further up than `p`. -/
def Stops (directory : List Component → Bool) (p : Path) : Prop :=
  directory p.components = true ∨ p.parent? = none

theorem stops_nearest (p : Path) : (p.nearest directory).Stops directory := by
  induction p using parentInduction with
  | top p htop =>
    rw [nearest_of_parent?_eq_none htop]
    exact .inr htop
  | child p parent hparent ih =>
    rw [nearest_of_parent? hparent]
    split
    · exact .inl ‹_›
    · exact ih

theorem Stops.of_same (h : q.Stops directory) (hqp : q.Same p) : p.Stops directory := by
  rw [Stops, parent?_eq_none_iff] at h ⊢
  rwa [← show q.components = p.components from hqp]

theorem atOrBelow_of_stops (hq : q.Stops directory) (hpq : p.atOrBelow q = true) :
    (p.nearest directory).atOrBelow q = true := by
  induction p using parentInduction with
  | top p htop => rwa [nearest_of_parent?_eq_none htop]
  | child p parent hparent ih =>
    rw [nearest_of_parent? hparent]
    split
    · exact hpq
    · rename_i hno
      refine ih ?_
      obtain ⟨c, hc⟩ := components_of_parent? hparent
      rw [atOrBelow_iff, hc] at hpq
      rcases List.prefix_concat_iff.1 hpq with heq | hpq
      · have hp : p.Stops directory := hq.of_same (heq.trans hc.symm)
        simp [Stops, hno, hparent] at hp
      · exact atOrBelow_iff.2 hpq

theorem nearest_mono (h : p.atOrBelow q = true) :
    (p.nearest directory).atOrBelow (q.nearest directory) = true :=
  atOrBelow_of_stops (stops_nearest q) (atOrBelow_trans h (atOrBelow_nearest q))

theorem coveredBy_nearest_topmost (p : Path) (roots : List Path) :
    p.coveredBy ((topmost roots).map (nearest directory)) =
      p.coveredBy (roots.map (nearest directory)) :=
  coveredBy_map_topmost (fun _ _ _ _ hle => nearest_mono hle) p

end Path

namespace FileSystem.Decides

variable {World : Type} {fs : FileSystem World} {directory : List Component → Bool}
  {now : World → Prop}

theorem firstDirectory (h : fs.Decides directory now) (root p : Path) (rest : List Path) {w : World}
    (hw : now w) : ∃ w', now w' ∧
      fs.firstDirectory root (p :: rest) w = (.ok (Path.firstOf directory p rest), w') := by
  induction rest generalizing p w with
  | nil => exact ⟨w, hw, rfl⟩
  | cons q rest ih =>
    have hanswer := h.answers hw p
    have hnext := h.keeps hw p
    rcases hasked : fs.isDirectory p w with ⟨answer, w₁⟩
    rw [hasked] at hanswer hnext
    cases hanswer
    simp only [FileSystem.firstDirectory, Path.firstOf, hasked]
    cases hp : directory p.components with
    | true => exact ⟨w₁, hnext, rfl⟩
    | false => exact ih q hnext

theorem nearestAll (h : fs.Decides directory now) (roots : List Path) {w : World} (hw : now w) :
    ∃ w', now w' ∧
      fs.nearestAll roots w = (.ok (roots.map (Path.nearest directory)), w') := by
  induction roots generalizing w with
  | nil => exact ⟨w, hw, rfl⟩
  | cons root rest ih =>
    obtain ⟨w₁, hw₁, hroot⟩ := h.firstDirectory root root root.ancestors.tail hw
    rw [← Path.ancestors_eq_cons] at hroot
    obtain ⟨w₂, hw₂, hrest⟩ := ih hw₁
    refine ⟨w₂, hw₂, ?_⟩
    rw [FileSystem.nearestAll, FileSystem.nearest, hroot]
    simp only [hrest]
    rfl

end FileSystem.Decides

namespace Listing

def holdsDirectory (l : Listing) (place : List Component) : Bool :=
  match l.at? place with
  | some (.directory _) => true
  | _ => false

theorem isDirectory_of_granted {l : Listing} (h : l.denied = []) (p : Path) :
    l.isDirectory p = .ok (l.holdsDirectory p.components) := by
  have hgranted : ¬l.isDenied p = true := by simp [isDenied, h]
  rw [isDirectory, if_neg hgranted, find?, holdsDirectory]
  rcases l.at? p.components with _ | _ | children <;> rfl

theorem decides {l : Listing} (h : l.denied = []) (workingDirectory : Path) :
    (fileSystem workingDirectory).Decides l.holdsDirectory (· = l) := by
  refine ⟨?_, ?_⟩
  · intro w hw p
    rw [hw]
    exact isDirectory_of_granted h p
  · intro w hw p
    exact hw

end Listing

end DirectoryWatch
