import DirectoryWatch.Glob.Filter
import Mathlib.Data.List.Basic

/-!
# Globs for one text

Characters that are escaped one by one make a glob that matches their text and nothing else. So any
two texts can be told apart by a filter.
-/
namespace DirectoryWatch.Glob

/-- The pattern for the characters as they are. -/
def escape (chars : List Char) : String := String.ofList (chars.flatMap fun c => ['\\', c])

def literals (chars : List Char) : List Token := chars.map .literal

theorem readFrom_escape (before : Option Char) (r : Reader) (chars : List Char) :
    readFrom before none r (chars.flatMap fun c => ['\\', c]) =
      .ok { r with branch := (literals chars).reverse ++ r.branch } := by
  induction chars generalizing before r with
  | nil => rfl
  | cons c rest ih =>
    have hstep : readFrom before none r ('\\' :: c :: rest.flatMap fun c => ['\\', c]) =
        readFrom (some c) none (r.push (.literal c)) (rest.flatMap fun c => ['\\', c]) := by
      rw [readFrom]
    rw [List.flatMap_cons, List.cons_append, List.cons_append, List.nil_append, hstep, ih]
    simp [literals, Reader.push]

theorem readTokens_escape (chars : List Char) : readTokens (escape chars) = .ok (literals chars) := by
  rw [readTokens, escape, String.toList_ofList, readFrom_escape]
  simp [Reader.initial, Reader.insideChoice, bind, Except.bind]

theorem exists_read_escape (chars : List Char) :
    ∃ g, Glob.read (escape chars) = .ok g ∧ g.tokens = literals chars := by
  rw [Glob.read]
  split
  · rename_i tokens hread
    have htokens := hread.symm.trans (readTokens_escape chars)
    exact ⟨_, rfl, Except.ok.inj htokens⟩
  · rename_i e hread
    cases hread.symm.trans (readTokens_escape chars)

theorem dropStart?_eq_some_iff {start bytes rest : Bytes} :
    dropStart? start bytes = some rest ↔ bytes = start ++ rest := by
  fun_induction dropStart? start bytes with
  | case1 bytes => simp
  | case2 s start => simp
  | case3 s start bytes ih => simp [ih]
  | case4 s start b bytes hne =>
    simp only [reduceCtorEq, List.cons_append, List.cons.injEq, false_iff, not_and]
    exact fun hb => absurd hb.symm hne

theorem dropStart?_append (first second bytes : Bytes) :
    dropStart? (first ++ second) bytes = (dropStart? first bytes).bind (dropStart? second) := by
  fun_induction dropStart? first bytes with
  | case1 => rfl
  | case2 => rfl
  | case3 s start bytes ih => simpa [dropStart?] using ih
  | case4 s start b bytes hne => simp [dropStart?, hne]

theorem restsAll_literals (chars : List Char) (before : List Bytes) :
    Token.restsAll (literals chars) before = before.filterMap (dropStart? (bytesOf chars)) := by
  induction chars generalizing before with
  | nil => exact (List.filterMap_some ..).symm
  | cons c rest ih =>
    change Token.restsAll (literals rest)
      (before.filterMap (dropStart? (String.utf8EncodeChar c))) = _
    rw [ih, List.filterMap_filterMap]
    congr 1
    funext bytes
    exact (dropStart?_append _ _ _).symm

theorem matchAll_literals_iff {chars : List Char} {bytes : Bytes} :
    Token.matchAll (literals chars) bytes = true ↔ bytes = bytesOf chars := by
  have hrests : Token.matchAll (literals chars) bytes =
      (Token.restsAll (literals chars) [bytes]).contains [] := by
    cases chars <;> rfl
  rw [hrests, restsAll_literals, List.contains_iff_mem, List.mem_filterMap]
  simp [dropStart?_eq_some_iff]

theorem all_isLiteral_literals (chars : List Char) :
    (literals chars).all Token.isLiteral = true := by
  simp [literals, Token.isLiteral]

theorem scopeOf_literals (chars : List Char) :
    scopeOf (literals chars) = if chars.isEmpty then .whole else .text := by
  cases chars with
  | nil => rfl
  | cons c rest =>
    have hall := all_isLiteral_literals (c :: rest)
    rw [scopeOf, show lastName? (literals (c :: rest)) = none from rfl, hall]
    rfl

section

variable {g : Glob} {chars : List Char} (h : g.tokens = literals chars)
include h

theorem scope_of_literals : g.scope = if chars.isEmpty then .whole else .text := by
  rw [scope, h, scopeOf_literals]

theorem isMatch_iff_of_literals {text : Bytes} :
    g.isMatch text = true ↔ text = bytesOf chars := by
  have hmatch : g.isMatch text = Token.matchAll g.tokens text := by
    rw [isMatch, scope_of_literals h]
    cases chars <;> rfl
  rw [hmatch, h, matchAll_literals_iff]

theorem checkDepth_of_literals : checkDepth [g] = .ok () := by
  have hscope := scope_of_literals h
  cases chars with
  | nil =>
    have hdeep : g.tooDeep = false := by
      rw [tooDeep, h]
      rfl
    simp [checkDepth, hdeep, List.findIdx?_cons, hscope]
  | cons c rest => simp [checkDepth, isWholeWithExtension, hscope]

end

end Glob

/-- For every text there is a filter that admits it alone. -/
theorem Filter.exists_admits_iff (chars : List Char) :
    ∃ filter, Filter.ofPatterns [Glob.escape chars] [] = .ok filter ∧
      ∀ text, filter.admits text = true ↔ text = Glob.bytesOf chars := by
  obtain ⟨g, hread, htokens⟩ := Glob.exists_read_escape chars
  refine ⟨⟨[g], []⟩, ?_, fun text => ?_⟩
  · have hcompile : Glob.compile [Glob.escape chars] = .ok [g] := by
      simp [Glob.compile, Glob.readAll, hread, Glob.checkDepth_of_literals htokens, bind,
        Except.bind, pure, Except.pure]
    rw [Filter.ofPatterns, hcompile]
    rfl
  · simp [Filter.admits, Glob.isMatch_iff_of_literals htokens]

end DirectoryWatch
