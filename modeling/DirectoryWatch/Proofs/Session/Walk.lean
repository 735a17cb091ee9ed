import DirectoryWatch.Session.Walk

/-!
# What walks leave registered

Walks only add to what is registered, and a walk that succeeds has registered its start, unless the
start was no directory when the walk began.
-/
namespace DirectoryWatch.Trail

variable {World : Type} (host : Host World)

theorem registered_directoriesAmong (entries : List Path) (t : Trail World) :
    (directoriesAmong host entries t).2.registered = t.registered := by
  fun_induction directoriesAmong host entries t <;> simp_all

theorem registered_children (directory : Path) (t : Trail World) :
    (children host directory t).2.registered = t.registered := by
  rw [children]
  split
  · exact registered_directoriesAmong host _ _
  · split <;> rfl

theorem added_directoriesAmong (entries : List Path) (t : Trail World) :
    (directoriesAmong host entries t).2.added = t.added := by
  fun_induction directoriesAmong host entries t <;> simp_all

theorem added_children (directory : Path) (t : Trail World) :
    (children host directory t).2.added = t.added := by
  rw [children]
  split
  · exact added_directoriesAmong host _ _
  · split <;> rfl

theorem mem_of_mem_directoriesAmong {host : Host World} {entries : List Path}
    {t : Trail World} {p : Path} (h : p ∈ (directoriesAmong host entries t).1) : p ∈ entries := by
  fun_induction directoriesAmong host entries t with
  | case1 => exact h
  | case2 entry rest t w heq found t' hrest ih =>
    rcases List.mem_cons.1 h with rfl | h
    · simp
    · rw [hrest] at ih
      exact List.mem_cons_of_mem entry (ih h)
  | case3 entry rest t w heq ih => exact List.mem_cons_of_mem entry (ih h)
  | case4 entry rest t fault w heq ih => exact List.mem_cons_of_mem entry (ih h)

theorem contains_register {host : Host World} {directory : Path} {t t' : Trail World}
    (h : register host directory t = (.ok (), t')) (p : Path) :
    t'.registered.contains p = (t.registered.contains p || decide (directory.Same p)) := by
  rw [register] at h
  split at h
  · rename_i hknown
    cases h
    by_cases hp : directory.Same p
    · rw [← t.registered.contains_congr hp, hknown, Bool.true_or]
    · simp [hp]
  · split at h
    · cases h
    · cases h
      rw [PathSet.contains_insert, Bool.or_comm]

theorem exists_register_ok {host : Host World} {directory : Path} {t : Trail World}
    (h : (host.watch directory t.world).1 = .ok ()) :
    ∃ t', register host directory t = (.ok (), t') := by
  rw [register]
  split
  · exact ⟨t, rfl⟩
  · rcases hasked : host.watch directory t.world with ⟨fault | _, w⟩
    all_goals rw [hasked] at h
    · cases h
    · exact ⟨_, rfl⟩

theorem registered_of_register_error {host : Host World} {directory : Path} {t t' : Trail World} {e : Failure}
    (h : register host directory t = (.error e, t')) : t'.registered = t.registered := by
  rw [register] at h
  split at h
  · cases h
  · split at h <;> cases h
    rfl

def Grows (t t' : Trail World) : Prop :=
  ∀ p, t.registered.contains p = true → t'.registered.contains p = true

theorem Grows.trans {t₁ t₂ t₃ : Trail World} (h : Grows t₁ t₂) (k : Grows t₂ t₃) : Grows t₁ t₃ :=
  fun p hp => k p (h p hp)

theorem grows_of_eq {t t' : Trail World} (h : t'.registered = t.registered) : Grows t t' :=
  fun _ hp => h ▸ hp

theorem grows_register (directory : Path) (t : Trail World) :
    Grows t (register host directory t).2 := by
  cases h : register host directory t with
  | mk result t' =>
    cases result with
    | error e => exact grows_of_eq (registered_of_register_error h)
    | ok => exact fun p hp => by rw [contains_register h, hp, Bool.true_or]

theorem grows_visit (directory : Path) (t : Trail World) :
    Grows t (visit host directory t).2 := by
  rw [visit]
  split
  · exact grows_of_eq rfl
  · exact grows_of_eq rfl
  · rename_i w _
    have hregister := grows_register host directory { t with world := w }
    split
    · rename_i h
      exact fun p hp => by simpa [h] using hregister p hp
    · rename_i h
      intro p hp
      rw [registered_children]
      simpa [h] using hregister p hp

theorem grows_walkFrom (start : Path) (wanted : Path → Bool) (limit : Nat) (stack : List Path)
    (t : Trail World) : Grows t (walkFrom host start wanted limit stack t).2 := by
  fun_induction walkFrom host start wanted limit stack t with
  | case1 => exact grows_of_eq rfl
  | case2 => exact grows_of_eq rfl
  | case3 limit directory rest t hwanted e t' hvisit =>
    simpa [hvisit] using grows_visit host directory t
  | case4 limit directory rest t hwanted found t' hvisit ih =>
    have hfirst := grows_visit host directory t
    rw [hvisit] at hfirst
    exact hfirst.trans ih
  | case5 limit directory rest t hwanted ih => exact ih

theorem grows_walk (wanted : Path → Bool) (start : Path) (t : Trail World) :
    Grows t (walk host wanted start t).2 :=
  grows_walkFrom host start wanted _ [start] t

theorem grows_walkAll (wanted : Path → Bool) (starts : List Path) (t : Trail World) :
    Grows t (walkAll host wanted starts t).2 := by
  fun_induction walkAll host wanted starts t with
  | case1 => exact grows_of_eq rfl
  | case2 start rest t e t' hwalk =>
    simpa [hwalk] using grows_walk host wanted start t
  | case3 start rest t t' hwalk ih =>
    have hfirst := grows_walk host wanted start t
    rw [hwalk] at hfirst
    exact hfirst.trans ih

/-- A visit that succeeds finds no directory, or it registers it and then looks into it. -/
theorem visit_ok {host : Host World} {directory : Path} {found : List Path} {t t' : Trail World}
    (h : visit host directory t = (.ok found, t')) :
    ((host.isDirectory directory t.world).1 = .ok false ∧ found = [] ∧
        t'.registered = t.registered) ∨
      ∃ w t₁, host.isDirectory directory t.world = (.ok true, w) ∧
        register host directory { t with world := w } = (.ok (), t₁) ∧
        children host directory t₁ = (.ok found, t') := by
  rw [visit] at h
  split at h
  · cases h
  · rename_i hanswer
    cases h
    exact .inl ⟨by rw [hanswer], rfl, rfl⟩
  · rename_i w hanswer
    split at h
    · cases h
    · rename_i t₁ hregister
      exact .inr ⟨w, t₁, hanswer, hregister, h⟩

theorem contains_children {host : Host World} {directory : Path} {found : List Path}
    {t t₁ t' : Trail World} {w : World}
    (hregister : register host directory { t with world := w } = (.ok (), t₁))
    (hchildren : children host directory t₁ = (.ok found, t')) (p : Path) :
    t'.registered.contains p = (t.registered.contains p || decide (directory.Same p)) := by
  have hregistered := registered_children host directory t₁
  rw [hchildren] at hregistered
  rw [hregistered, contains_register hregister]

/-- The first thing that a walk does is to visit its start. -/
theorem walk_ok {host : Host World} {wanted : Path → Bool} {start : Path} {t t' : Trail World}
    (h : walk host wanted start t = (.ok (), t')) :
    ∃ found t₁, visit host start t = (.ok found, t₁) ∧ Grows t₁ t' := by
  rw [walk] at h
  cases hlimit : host.walkLimit t.world with
  | zero =>
    rw [hlimit, walkFrom] at h
    cases h
  | succ limit =>
    rw [hlimit, walkFrom, if_pos (.inl (Path.Same.refl start))] at h
    split at h
    · cases h
    · rename_i found t₁ hvisit
      have hgrows := grows_walkFrom host start wanted limit (found ++ []) t₁
      rw [h] at hgrows
      exact ⟨found, t₁, hvisit, hgrows⟩

def gone (wanted : Path → Bool) : List Path → Trail World → List Path
  | [], _ => []
  | start :: rest, t =>
    let later := gone wanted rest (walk host wanted start t).2
    match (host.isDirectory start t.world).1 with
    | .ok false => start :: later
    | _ => later

theorem mem_of_mem_gone {wanted : Path → Bool} {starts : List Path} {t : Trail World} {p : Path}
    (h : p ∈ gone host wanted starts t) : p ∈ starts := by
  induction starts generalizing t with
  | nil => simp [gone] at h
  | cons start rest ih =>
    simp only [gone] at h
    split at h
    · rcases List.mem_cons.1 h with rfl | h
      · simp
      · exact List.mem_cons_of_mem start (ih h)
    · exact List.mem_cons_of_mem start (ih h)

/-- Walks that succeed have registered each start that was there. -/
theorem mem_gone_or_contains {host : Host World} {wanted : Path → Bool} {starts : List Path}
    {t t' : Trail World} (h : walkAll host wanted starts t = (.ok (), t')) {p : Path}
    (hp : p ∈ starts) : p ∈ gone host wanted starts t ∨ t'.registered.contains p = true := by
  induction starts generalizing t with
  | nil => simp at hp
  | cons start rest ih =>
    rw [walkAll] at h
    split at h
    · cases h
    · rename_i t₂ hwalk
      obtain ⟨found, t₁, hvisit, hgrows⟩ := walk_ok hwalk
      have hlater := grows_walkAll host wanted rest t₂
      rw [h] at hlater
      simp only [gone, hwalk]
      rcases List.mem_cons.1 hp with rfl | hp
      · rcases visit_ok hvisit with ⟨hanswer, -⟩ | ⟨w, t₀, -, hregister, hchildren⟩
        · simp [hanswer]
        · have hcontains := contains_children hregister hchildren p
          exact .inr (hlater p (hgrows p (by simp [hcontains, Path.Same.refl])))
      · rcases ih h hp with hgone | hcontains
        · left
          split
          · exact List.mem_cons_of_mem start hgone
          · exact hgone
        · exact .inr hcontains

end DirectoryWatch.Trail
