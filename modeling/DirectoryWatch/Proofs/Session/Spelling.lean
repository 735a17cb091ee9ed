import DirectoryWatch.Proofs.Registry.Spelling
import DirectoryWatch.Session.Plan

/-!
# Walks under other spellings

With a facility that ignores spelling as well, walks from the same directories come to the same
directories and hand them over in the same order.
-/
namespace DirectoryWatch

variable {World : Type} {host : Host World} {alike : World → World → Prop}

structure Host.IgnoresSpelling (host : Host World) (alike : World → World → Prop) : Prop
    extends host.toFileSystem.IgnoresSpelling alike where
  watch {p q : Path} {w w' : World} (hpq : p.Same q) (hw : alike w w') :
    Alongside Eq alike (host.watch p w) (host.watch q w')

theorem FileSystem.IgnoresSpelling.dry {fs : FileSystem World} (h : fs.IgnoresSpelling alike) :
    fs.dry.IgnoresSpelling alike where
  toIgnoresSpelling := h
  watch _ hw := .ok rfl hw

/-- The same directories, in the same order, in worlds that are alike. -/
structure Trail.Resembles (alike : World → World → Prop) (t t' : Trail World) : Prop where
  registered : ∀ p, t.registered.contains p = t'.registered.contains p
  added : Path.AllSame t.added t'.added
  world : alike t.world t'.world

theorem Trail.Resembles.moved {t t' : Trail World} (h : t.Resembles alike t') {w w' : World}
    (hw : alike w w') {skipped skipped' : List Path} :
    Trail.Resembles alike { t with world := w, skipped := skipped }
      { t' with world := w', skipped := skipped' } :=
  ⟨h.registered, h.added, hw⟩

namespace Host.IgnoresSpelling

open Trail

variable {t t' : Trail World}

theorem directoriesAmong (h : host.IgnoresSpelling alike) {entries entries' : List Path}
    (hentries : Path.AllSame entries entries') (ht : t.Resembles alike t') :
    Path.AllSame (Trail.directoriesAmong host entries t).1
        (Trail.directoriesAmong host entries' t').1 ∧
      (Trail.directoriesAmong host entries t).2.Resembles alike
        (Trail.directoriesAmong host entries' t').2 := by
  induction hentries generalizing t t' with
  | nil => exact ⟨.nil, ht⟩
  | cons hpq _ ih =>
    have hanswer := h.isDirectory hpq ht.world
    rw [Trail.directoriesAmong, Trail.directoriesAmong]
    generalize host.isDirectory _ t.world = x at hanswer ⊢
    generalize host.isDirectory _ t'.world = y at hanswer ⊢
    cases hanswer with
    | error hw => exact ih (ht.moved hw)
    | @ok a _ _ _ heq hw =>
      subst heq
      cases a with
      | true =>
        obtain ⟨hfound, hleft⟩ := ih (ht.moved hw)
        exact ⟨.cons hpq hfound, hleft⟩
      | false => exact ih (ht.moved hw)

theorem register (h : host.IgnoresSpelling alike) {p q : Path} (hpq : p.Same q)
    (ht : t.Resembles alike t') :
    Alongside Eq (Trail.Resembles alike) (Trail.register host p t) (Trail.register host q t') := by
  have hregistered : t.registered.contains p = t'.registered.contains q := by
    rw [t.registered.contains_congr hpq, ht.registered]
  rw [Trail.register, Trail.register, hregistered]
  split
  · exact .ok rfl ht
  · have hanswer := h.watch hpq ht.world
    generalize host.watch p t.world = x at hanswer ⊢
    generalize host.watch q t'.world = y at hanswer ⊢
    cases hanswer with
    | error hw => exact .error (ht.moved hw)
    | ok _ hw =>
      refine .ok rfl ⟨fun r => ?_, ht.added.append (.cons hpq .nil), hw⟩
      exact PathSet.contains_insertAll_congr ht.registered (.cons hpq .nil) r

theorem children (h : host.IgnoresSpelling alike) {p q : Path} (hpq : p.Same q)
    (ht : t.Resembles alike t') :
    Alongside Path.AllSame (Trail.Resembles alike) (Trail.children host p t)
      (Trail.children host q t') := by
  have hlisted := h.entries hpq ht.world
  rw [Trail.children, Trail.children]
  generalize host.entries p t.world = x at hlisted ⊢
  generalize host.entries q t'.world = y at hlisted ⊢
  cases hlisted with
  | ok hentries hw =>
    obtain ⟨hfound, hleft⟩ := h.directoriesAmong hentries (ht.moved hw)
    exact .ok hfound.sort hleft
  | error hw =>
    have hanswer := h.isDirectory hpq hw
    dsimp only
    generalize host.isDirectory p _ = x at hanswer ⊢
    generalize host.isDirectory q _ = y at hanswer ⊢
    cases hanswer with
    | error hw => exact .error (ht.moved hw)
    | @ok a _ _ _ heq hw =>
      subst heq
      cases a with
      | true => exact .error (ht.moved hw)
      | false => exact .ok .nil (ht.moved hw)

theorem visit (h : host.IgnoresSpelling alike) {p q : Path} (hpq : p.Same q)
    (ht : t.Resembles alike t') :
    Alongside Path.AllSame (Trail.Resembles alike) (Trail.visit host p t)
      (Trail.visit host q t') := by
  have hanswer := h.isDirectory hpq ht.world
  rw [Trail.visit, Trail.visit]
  generalize host.isDirectory p t.world = x at hanswer ⊢
  generalize host.isDirectory q t'.world = y at hanswer ⊢
  cases hanswer with
  | error hw => exact .error (ht.moved hw)
  | @ok a _ w w' heq hw =>
    subst heq
    cases a with
    | false => exact .ok .nil (ht.moved hw)
    | true =>
      have ht : Resembles alike { t with world := w } { t' with world := w' } := ht.moved hw
      have hregister := h.register hpq ht
      dsimp only
      generalize Trail.register host p _ = x at hregister ⊢
      generalize Trail.register host q _ = y at hregister ⊢
      cases hregister with
      | error ht => exact .error ht
      | ok _ ht => exact h.children hpq ht

theorem walkFrom (h : host.IgnoresSpelling alike) {start start' : Path} (hstart : start.Same start')
    {wanted wanted' : Path → Bool} (hwanted : ∀ p q : Path, p.Same q → wanted p = wanted' q)
    (limit : Nat) {pending pending' : List Path} (hpending : Path.AllSame pending pending')
    (ht : t.Resembles alike t') :
    Alongside Eq (Trail.Resembles alike) (Trail.walkFrom host start wanted limit pending t)
      (Trail.walkFrom host start' wanted' limit pending' t') := by
  induction limit generalizing pending pending' t t' with
  | zero =>
    cases hpending with
    | nil => exact .ok rfl ht
    | cons _ _ => exact .error ht
  | succ limit ih =>
    cases hpending with
    | nil => exact .ok rfl ht
    | @cons p q rest rest' hpq hrest =>
      have hchosen : (p.Same start ∨ wanted p = true) ↔ (q.Same start' ∨ wanted' q = true) := by
        rw [hpq.same_iff hstart, hwanted p q hpq]
      rw [Trail.walkFrom, Trail.walkFrom]
      simp only [hchosen]
      split
      · have hvisit := h.visit hpq ht
        generalize Trail.visit host p t = x at hvisit ⊢
        generalize Trail.visit host q t' = y at hvisit ⊢
        cases hvisit with
        | error ht => exact .error ht
        | ok hfound ht => exact ih (hfound.append hrest) ht
      · exact ih hrest ht

theorem walk (h : host.IgnoresSpelling alike) {start start' : Path} (hstart : start.Same start')
    {wanted wanted' : Path → Bool} (hwanted : ∀ p q : Path, p.Same q → wanted p = wanted' q)
    (ht : t.Resembles alike t') :
    Alongside Eq (Trail.Resembles alike) (Trail.walk host wanted start t)
      (Trail.walk host wanted' start' t') := by
  rw [Trail.walk, Trail.walk, h.walkLimit ht.world]
  exact h.walkFrom hstart hwanted _ (.cons hstart .nil) ht

theorem walkAll (h : host.IgnoresSpelling alike)
    {wanted wanted' : Path → Bool} (hwanted : ∀ p q : Path, p.Same q → wanted p = wanted' q)
    {starts starts' : List Path} (hstarts : Path.AllSame starts starts')
    (ht : t.Resembles alike t') :
    Alongside Eq (Trail.Resembles alike) (Trail.walkAll host wanted starts t)
      (Trail.walkAll host wanted' starts' t') := by
  induction hstarts generalizing t t' with
  | nil => exact .ok rfl ht
  | @cons start start' _ _ hstart _ ih =>
    have hwalk := h.walk hstart hwanted ht
    rw [Trail.walkAll, Trail.walkAll]
    generalize Trail.walk host wanted start t = x at hwalk ⊢
    generalize Trail.walk host wanted' start' t' = y at hwalk ⊢
    cases hwalk with
    | error ht => exact .error ht
    | ok _ ht => exact ih ht

end Host.IgnoresSpelling

end DirectoryWatch
