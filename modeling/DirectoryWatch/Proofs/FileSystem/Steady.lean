import DirectoryWatch.Proofs.Session.World

/-!
# File systems that do not change

Where each path is always answered in one way, be it with a failure, the search for the directories
nearest to some roots always ends in one way too.
-/
namespace DirectoryWatch.FileSystem

variable {World : Type} {fs : FileSystem World} {answer : Path → Except Fault Bool}
  {now : World → Prop}

/-- In every world in which `now` holds, whether a path is a directory is answered in one way. -/
def Steady (fs : FileSystem World) (answer : Path → Except Fault Bool) (now : World → Prop) : Prop :=
  ∀ p w, now w → (fs.isDirectory p w).1 = answer p

namespace Steady

variable {w w' : World}

theorem firstDirectory (h : fs.Steady answer now) (hmaintains : fs.Maintains now) (root : Path)
    (chain : List Path) (hw : now w) (hw' : now w') :
    (fs.firstDirectory root chain w).1 = (fs.firstDirectory root chain w').1 := by
  induction chain generalizing w w' with
  | nil => rfl
  | cons p rest ih =>
    cases rest with
    | nil => rfl
    | cons q rest =>
      have hanswer := (h p w hw).trans (h p w' hw').symm
      have hnext := hmaintains.isDirectory p w hw
      have hnext' := hmaintains.isDirectory p w' hw'
      rw [FileSystem.firstDirectory, FileSystem.firstDirectory]
      · generalize fs.isDirectory p w = asked at hanswer hnext ⊢
        generalize fs.isDirectory p w' = asked' at hanswer hnext' ⊢
        obtain ⟨found, w₁⟩ := asked
        obtain ⟨found', w₂⟩ := asked'
        obtain rfl : found = found' := hanswer
        rcases found with fault | _ | _
        · rfl
        · exact ih hnext hnext'
        · rfl
      all_goals exact fun hnil => List.cons_ne_nil _ _ hnil

theorem nearest (h : fs.Steady answer now) (hmaintains : fs.Maintains now) (root : Path)
    (hw : now w) (hw' : now w') : (fs.nearest root w).1 = (fs.nearest root w').1 :=
  h.firstDirectory hmaintains root root.ancestors hw hw'

theorem nearestAll (h : fs.Steady answer now) (hmaintains : fs.Maintains now)
    (roots : List Path) (hw : now w) (hw' : now w') :
    (fs.nearestAll roots w).1 = (fs.nearestAll roots w').1 := by
  induction roots generalizing w w' with
  | nil => rfl
  | cons root rest ih =>
    have hfirst := h.nearest hmaintains root hw hw'
    have hnext := hmaintains.nearest root hw
    have hnext' := hmaintains.nearest root hw'
    rw [FileSystem.nearestAll, FileSystem.nearestAll]
    generalize fs.nearest root w = searched at hfirst hnext ⊢
    generalize fs.nearest root w' = searched' at hfirst hnext' ⊢
    obtain ⟨found, w₁⟩ := searched
    obtain ⟨found', w₂⟩ := searched'
    obtain rfl : found = found' := hfirst
    cases found with
    | error e => rfl
    | ok p =>
      have hrest := ih hnext hnext'
      dsimp only at hrest ⊢
      generalize fs.nearestAll rest w₁ = others at hrest ⊢
      generalize fs.nearestAll rest w₂ = others' at hrest ⊢
      obtain ⟨more, w₃⟩ := others
      obtain ⟨more', w₄⟩ := others'
      obtain rfl : more = more' := hrest
      cases more <;> rfl

end Steady

end DirectoryWatch.FileSystem
