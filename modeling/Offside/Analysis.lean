import Offside.Scan

/-!
# Analysis of a source text

A text is analysed by scanning it once. Either no fault was found and the tokens are the answer, or
all faults are given together with the tokens that were read beside them.
-/

namespace Offside

/-- The faults of a text, and the tokens of what could be read. -/
structure Failure where
  errors : List LocatedFault
  tokens : List Token
deriving DecidableEq, Repr

namespace Failure

/-- Whether one of the faults stopped the scan. -/
def hasFatal (failure : Failure) : Bool :=
  failure.errors.any LocatedFault.isFatal

/-- One line for all faults. -/
def render (failure : Failure) : String :=
  LocatedFault.summary failure.errors

end Failure

/-- The tokens of a text, or its faults. -/
def analyze (source : List Char) : Except Failure (List Token) :=
  let scan := Scan.ofSource source
  if scan.errors.isEmpty then .ok scan.tokens else .error ⟨scan.errors, scan.tokens⟩

/-- The tokens that an analysis gives, alone or beside faults. -/
def tokensOf (source : List Char) : List Token :=
  match analyze source with
  | .ok tokens => tokens
  | .error failure => failure.tokens

/-- The faults that an analysis reports. -/
def faultsOf (source : List Char) : List LocatedFault :=
  match analyze source with
  | .ok _ => []
  | .error failure => failure.errors

/-- An analysis gives the tokens of the scan. -/
theorem tokensOf_eq (source : List Char) : tokensOf source = (Scan.ofSource source).tokens := by
  unfold tokensOf analyze
  cases herrors : (Scan.ofSource source).errors <;> simp [herrors]

/-- An analysis reports the faults of the scan. -/
theorem faultsOf_eq (source : List Char) : faultsOf source = (Scan.ofSource source).errors := by
  unfold faultsOf analyze
  cases herrors : (Scan.ofSource source).errors <;> simp [herrors]

/-- An analysis is its tokens, and its faults if there are any. -/
theorem analyze_eq (source : List Char) :
    analyze source = if (faultsOf source).isEmpty then .ok (tokensOf source)
      else .error ⟨faultsOf source, tokensOf source⟩ := by
  rw [faultsOf_eq, tokensOf_eq]
  rfl

/-- An analysis succeeds when it reports no fault. -/
theorem isOk_analyze (source : List Char) : (analyze source).isOk = (faultsOf source).isEmpty := by
  rw [analyze_eq]
  cases (faultsOf source).isEmpty <;> rfl

/-- An analysis succeeds with its tokens when it reports no fault. -/
theorem analyze_eq_ok_iff {source : List Char} {tokens : List Token} :
    analyze source = .ok tokens ↔ faultsOf source = [] ∧ tokensOf source = tokens := by
  unfold faultsOf tokensOf analyze
  cases herrors : (Scan.ofSource source).errors <;> simp [herrors]

end Offside
