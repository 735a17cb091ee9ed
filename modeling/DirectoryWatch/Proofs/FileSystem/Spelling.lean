import DirectoryWatch.FileSystem.Listing
import DirectoryWatch.Proofs.Path.Spelling
import DirectoryWatch.Registry.Nearest

/-!
# File systems that ignore spelling

A file system may answer the same for all spellings of a path, as listings do. Then the directories
nearest to some roots are the same paths, however the roots are spelled.
-/
namespace DirectoryWatch

variable {World : Type} {alike : World → World → Prop}

/-- Both fail or both succeed, with results that belong together, and so does what they leave
behind. -/
inductive Alongside {ε α β σ τ : Type} (rel : α → β → Prop) (left : σ → τ → Prop) :
    Except ε α × σ → Except ε β × τ → Prop
  | ok {a : α} {b : β} {x : σ} {y : τ} (h : rel a b) (hleft : left x y) :
      Alongside rel left (.ok a, x) (.ok b, y)
  | error {e e' : ε} {x : σ} {y : τ} (hleft : left x y) :
      Alongside rel left (.error e, x) (.error e', y)

/-- In worlds that are alike the answers do not depend on how the paths are spelled. -/
structure FileSystem.IgnoresSpelling (fs : FileSystem World) (alike : World → World → Prop) :
    Prop where
  isDirectory {p q : Path} {w w' : World} (hpq : p.Same q) (hw : alike w w') :
    Alongside Eq alike (fs.isDirectory p w) (fs.isDirectory q w')
  entries {p q : Path} {w w' : World} (hpq : p.Same q) (hw : alike w w') :
    Alongside Path.AllSame alike (fs.entries p w) (fs.entries q w')
  walkLimit {w w' : World} (hw : alike w w') : fs.walkLimit w = fs.walkLimit w'

namespace FileSystem.IgnoresSpelling

variable {fs : FileSystem World}

theorem firstDirectory (h : fs.IgnoresSpelling alike) {root root' : Path} {chain chain' : List Path}
    {w w' : World} (hroot : root.Same root') (hchain : Path.AllSame chain chain')
    (hw : alike w w') :
    Alongside Path.Same alike (fs.firstDirectory root chain w)
      (fs.firstDirectory root' chain' w') := by
  induction hchain generalizing w w' with
  | nil => exact .ok hroot hw
  | cons hpq hrest ih =>
    cases hrest with
    | nil => exact .ok hpq hw
    | cons hnext hrest =>
      have hanswer := h.isDirectory hpq hw
      rw [FileSystem.firstDirectory, FileSystem.firstDirectory]
      generalize fs.isDirectory _ w = x at hanswer ⊢
      generalize fs.isDirectory _ w' = y at hanswer ⊢
      cases hanswer with
      | error hw => exact .error hw
      | @ok a _ _ _ heq hw =>
        subst heq
        cases a with
        | true => exact .ok hpq hw
        | false => exact ih hw
      all_goals exact fun hnil => List.cons_ne_nil _ _ hnil

theorem nearest (h : fs.IgnoresSpelling alike) {root root' : Path} {w w' : World}
    (hroot : root.Same root') (hw : alike w w') :
    Alongside Path.Same alike (fs.nearest root w) (fs.nearest root' w') :=
  h.firstDirectory hroot hroot.ancestors hw

theorem nearestAll (h : fs.IgnoresSpelling alike) {roots roots' : List Path} {w w' : World}
    (hroots : Path.AllSame roots roots') (hw : alike w w') :
    Alongside Path.AllSame alike (fs.nearestAll roots w) (fs.nearestAll roots' w') := by
  induction hroots generalizing w w' with
  | nil => exact .ok .nil hw
  | @cons root root' rest rest' hroot _ ih =>
    have hnearest := h.nearest hroot hw
    rw [FileSystem.nearestAll, FileSystem.nearestAll]
    generalize fs.nearest root w = x at hnearest ⊢
    generalize fs.nearest root' w' = y at hnearest ⊢
    cases hnearest with
    | error hw => exact .error hw
    | ok hp hw =>
      have hall := ih hw
      simp only
      generalize fs.nearestAll rest _ = x at hall ⊢
      generalize fs.nearestAll rest' _ = y at hall ⊢
      cases hall with
      | error hw => exact .error hw
      | ok hps hw => exact .ok (.cons hp hps) hw

end FileSystem.IgnoresSpelling

namespace Listing

variable {p q : Path}

theorem isDenied_congr (l : Listing) (h : p.Same q) : l.isDenied p = l.isDenied q :=
  congrArg l.denied.contains h

theorem find?_congr (l : Listing) (h : p.Same q) : l.find? p = l.find? q := congrArg l.at? h

theorem ignoresSpelling_fileSystem (workingDirectory : Path) :
    (fileSystem workingDirectory).IgnoresSpelling Eq where
  isDirectory {p q l l'} hpq hl := by
    subst hl
    simp only [fileSystem, isDirectory, l.isDenied_congr hpq, l.find?_congr hpq]
    cases l.isDenied q with
    | true => exact .error rfl
    | false =>
      rw [if_neg Bool.false_ne_true, if_neg Bool.false_ne_true]
      rcases l.find? q with _ | _ | children <;> exact .ok rfl rfl
  entries {p q l l'} hpq hl := by
    subst hl
    simp only [fileSystem, entriesOf, l.isDenied_congr hpq, l.find?_congr hpq]
    cases l.isDenied q with
    | true => exact .error rfl
    | false =>
      rw [if_neg Bool.false_ne_true, if_neg Bool.false_ne_true]
      rcases l.find? q with _ | _ | children
      · exact .error rfl
      · exact .error rfl
      · refine .ok ?_ rfl
        exact List.forall₂_map_left_iff.2 (List.forall₂_map_right_iff.2
          (List.forall₂_same.2 fun name _ => hpq.join ⟨name⟩))
  walkLimit hl := by rw [hl]

end Listing

end DirectoryWatch
