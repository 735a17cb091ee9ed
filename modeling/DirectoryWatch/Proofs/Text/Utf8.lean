import DirectoryWatch.Text.Utf8
import Mathlib.Tactic.SplitIfs

/-!
# Reading UTF-8 in parts

An ASCII character ends whatever stands before it: no sequence goes on over one. So bytes are read
part by part between such characters.
-/
namespace DirectoryWatch

namespace Text.Utf8

/-- The sequence waits for no ASCII character. -/
def Pending.Continues (p : Pending) : Prop := ∀ range ∈ p.next :: p.after, 0x80 ≤ range.1

theorem start_of_lt {b : UInt8} (h : b < 0x80) : start b = .inl (.char (Char.ofNat b.toNat)) := by
  rw [start, if_pos h]

theorem le_of_mem_tails (lead : UInt8) : ∀ range ∈ tails lead, 0x80 ≤ range.1 := by
  rw [tails]
  split_ifs <;> simp

theorem continues_of_start {b : UInt8} {p : Pending} (h : start b = .inr p) : p.Continues := by
  rw [start] at h
  split at h
  · cases h
  · split at h
    · cases h
    · rename_i next after htails
      cases h
      intro range hrange
      exact le_of_mem_tails b range (htails ▸ hrange)

theorem Pending.Continues.next_of_after {p : Pending} (h : p.Continues) {next : UInt8 × UInt8}
    {after : List (UInt8 × UInt8)} (hafter : p.after = next :: after) (taken : Bytes)
    (value : Nat) : Continues ⟨taken, value, next, after⟩ := by
  intro range hrange
  exact h range (List.mem_cons_of_mem p.next (hafter ▸ hrange))

/-- Where a sequence is cut short by an ASCII character, it is ill-formed up to there. -/
theorem piecesFrom_append {pending : Option Pending} (h : ∀ p ∈ pending, p.Continues)
    (bytes : Bytes) {b : UInt8} (hb : b < 0x80) (rest : Bytes) :
    piecesFrom pending (bytes ++ b :: rest) =
      piecesFrom pending bytes ++ .char (Char.ofNat b.toNat) :: piecesFrom none rest := by
  have hnone : ∀ p ∈ (none : Option Pending), p.Continues := fun _ hp => by cases hp
  fun_induction piecesFrom pending bytes with
  | case1 => simp [piecesFrom, start_of_lt hb]
  | case2 p =>
    have hnext : ¬(p.next.1 ≤ b ∧ b ≤ p.next.2) := fun hin =>
      UInt8.not_lt.2 (UInt8.le_trans (h p rfl p.next (List.mem_cons_self ..)) hin.1) hb
    simp [piecesFrom, start_of_lt hb, hnext]
  | case3 c bytes piece hstart ih => simp [piecesFrom, hstart, ih hnone]
  | case4 c bytes q hstart ih =>
    have hq : ∀ p ∈ some q, p.Continues := by
      rintro _ ⟨⟩
      exact continues_of_start hstart
    simp [piecesFrom, hstart, ih hq]
  | case5 p c bytes hin value hafter ih => simp [piecesFrom, hin, hafter, ih hnone, value]
  | case6 p c bytes hin value next after hafter ih =>
    have hq : ∀ q ∈ some ⟨p.taken ++ [c], value, next, after⟩, Pending.Continues q := by
      rintro _ ⟨⟩
      exact (h p rfl).next_of_after hafter _ _
    simp [piecesFrom, hin, hafter, ih hq, value]
  | case7 p c bytes hout piece hstart ih => simp [piecesFrom, hout, hstart, ih hnone]
  | case8 p c bytes hout q hstart ih =>
    have hq : ∀ p ∈ some q, p.Continues := by
      rintro _ ⟨⟩
      exact continues_of_start hstart
    simp [piecesFrom, hout, hstart, ih hq]

end Text.Utf8

end DirectoryWatch
