import DirectoryWatch.Proofs.Session.Errand
import DirectoryWatch.Proofs.Session.Walk

/-!
# Limits of walks

A host limits how many paths one walk may take up. The limit decides where a walk is given up and
nothing else, so a walk that is done after some number of steps is the same under each limit that
allows for them.
-/
namespace DirectoryWatch

variable {World : Type}

def Host.limited (host : Host World) (limit : World → Nat) : Host World :=
  { host with walkLimit := limit }

namespace Host

variable (host : Host World) (limit : World → Nat)

theorem nearest_limited (root : Path) (w : World) :
    (host.limited limit).nearest root w = host.nearest root w := by
  rw [FileSystem.nearest, FileSystem.nearest]
  fun_induction FileSystem.firstDirectory host.toFileSystem root root.ancestors w with
  | case1 => rfl
  | case2 => rfl
  | case3 p rest w hrest fault w' heq => simp [FileSystem.firstDirectory, limited, heq]
  | case4 p rest w hrest w' heq => simp [FileSystem.firstDirectory, limited, heq]
  | case5 p rest w hrest w' heq ih => simpa [FileSystem.firstDirectory, limited, heq] using ih

theorem nearestAll_limited (roots : List Path) (w : World) :
    (host.limited limit).nearestAll roots w = host.nearestAll roots w := by
  induction roots generalizing w with
  | nil => rfl
  | cons root rest ih => simp only [FileSystem.nearestAll, nearest_limited, ih]

theorem directoriesAmong_limited (entries : List Path) (t : Trail World) :
    Trail.directoriesAmong (host.limited limit) entries t =
      Trail.directoriesAmong host entries t := by
  induction entries generalizing t with
  | nil => rfl
  | cons entry rest ih =>
    rw [Trail.directoriesAmong, Trail.directoriesAmong]
    simp only [ih]
    rfl

theorem visit_limited (directory : Path) (t : Trail World) :
    Trail.visit (host.limited limit) directory t = Trail.visit host directory t := by
  have hchildren (t : Trail World) :
      Trail.children (host.limited limit) directory t = Trail.children host directory t := by
    rw [Trail.children, Trail.children]
    simp only [directoriesAmong_limited]
    rfl
  rw [Trail.visit, Trail.visit]
  simp only [hchildren]
  rfl

/-- Walks over the same stack differ by where the limit ends them, not by what they do. -/
theorem walkFrom_limited (start : Path) (wanted : Path → Bool) (steps : Nat) (stack : List Path)
    (t : Trail World) :
    Trail.walkFrom (host.limited limit) start wanted steps stack t =
      Trail.walkFrom host start wanted steps stack t := by
  induction steps generalizing stack t with
  | zero => cases stack <;> rfl
  | succ steps ih =>
    cases stack with
    | nil => rw [Trail.walkFrom, Trail.walkFrom]
    | cons p rest => simp only [Trail.walkFrom, visit_limited, ih]

end Host

theorem Session.errand_limited (host : Host World) (limit : World → Nat) (s : Session) (w : World)
    (c : Call) :
    s.errand (host.limited limit).toFileSystem w c = s.errand host.toFileSystem w c := by
  have hrequest (tell : Update → Option Update) (request : Request) :
      s.requestErrand (host.limited limit).toFileSystem tell request w =
        s.requestErrand host.toFileSystem tell request w := by
    rw [requestErrand, requestErrand, Registry.register, Registry.register]
    simp only [Host.nearestAll_limited]
    rfl
  cases c with
  | register request => exact hrequest some request
  | watch request => exact hrequest (fun _ => none) request
  | created directory => rfl

namespace Trail

variable {host : Host World} {start p : Path} {wanted : Path → Bool} {found xs ys : List Path}
  {t t₁ t₂ : Trail World}

/-- After some steps a walk is done with these paths on top of its stack, whatever lies under
them. -/
def Finishes (host : Host World) (start : Path) (wanted : Path → Bool) (stack : List Path)
    (t t' : Trail World) : Prop :=
  ∃ steps, ∀ more rest,
    walkFrom host start wanted (steps + more) (stack ++ rest) t =
      walkFrom host start wanted more rest t'

theorem Finishes.nil : Finishes host start wanted [] t t :=
  ⟨0, fun more rest => by rw [Nat.zero_add, List.nil_append]⟩

theorem Finishes.append (h : Finishes host start wanted xs t t₁)
    (k : Finishes host start wanted ys t₁ t₂) : Finishes host start wanted (xs ++ ys) t t₂ := by
  obtain ⟨m, hm⟩ := h
  obtain ⟨n, hn⟩ := k
  exact ⟨m + n, fun more rest => by rw [Nat.add_assoc, List.append_assoc, hm, hn]⟩

theorem Finishes.skip (h : ¬(p.Same start ∨ wanted p = true)) :
    Finishes host start wanted [p] t t :=
  ⟨1, fun more rest => by rw [Nat.add_comm, List.singleton_append, walkFrom, if_neg h]⟩

theorem Finishes.visit (htaken : p.Same start ∨ wanted p = true)
    (hvisit : visit host p t = (.ok found, t₁)) (h : Finishes host start wanted found t₁ t₂) :
    Finishes host start wanted [p] t t₂ := by
  obtain ⟨steps, hsteps⟩ := h
  refine ⟨steps + 1, fun more rest => ?_⟩
  rw [Nat.add_right_comm, List.singleton_append, walkFrom, if_pos htaken, hvisit]
  exact hsteps more rest

theorem exists_finishes_stack {now : World → Prop} {stack : List Path}
    (h : ∀ p ∈ stack, ∀ t : Trail World, now t.world →
      ∃ t', Finishes host start wanted [p] t t' ∧ now t'.world) {t : Trail World}
    (ht : now t.world) : ∃ t', Finishes host start wanted stack t t' ∧ now t'.world := by
  induction stack generalizing t with
  | nil => exact ⟨t, .nil, ht⟩
  | cons p rest ih =>
    obtain ⟨t₁, hfirst, ht₁⟩ := h p (by simp) t ht
    obtain ⟨t₂, hrest, ht₂⟩ := ih (fun q hq => h q (List.mem_cons_of_mem p hq)) ht₁
    exact ⟨t₂, hfirst.append hrest, ht₂⟩

theorem Finishes.walk (h : Finishes host start wanted [start] t t₁) :
    ∃ enough, ∀ limit : World → Nat, (∀ w, enough ≤ limit w) →
      walk (host.limited limit) wanted start t = (.ok (), t₁) := by
  obtain ⟨steps, hsteps⟩ := h
  refine ⟨steps, fun limit hlimit => ?_⟩
  obtain ⟨more, hmore⟩ := Nat.exists_eq_add_of_le (hlimit t.world)
  have hwalk := hsteps more []
  rw [← hmore, List.append_nil, walkFrom] at hwalk
  rw [Trail.walk, Host.walkFrom_limited]
  exact hwalk

end Trail

end DirectoryWatch
