import ModelWeaver.Document.Region
import ModelWeaver.Failure

/-!
# Faults of documents

Why a document could not be expanded, and where.
-/

namespace ModelWeaver.Document

open Text

/-- Why a document could not be expanded. -/
inductive Fault where
  /-- The text cannot be cut into regions. -/
  | unreadable (error : SyntaxError) (location : Location)
  /-- A construct failed. -/
  | failed (failure : Failure) (construct : Region) (location : Location)
  | fileAccess
  /-- The program stopped. Nothing is said about the construct. -/
  | panicked (operation : Failure.Panic)
  deriving DecidableEq

namespace Fault

/-- The failure of a construct as a fault of its document. -/
def ofFailure (construct : Region) (location : Location) : Failure → Fault
  | .panic operation => panicked operation
  | failure => failed failure construct location

/-- What went wrong. -/
def failure : Fault → Failure
  | unreadable error _ => .malformed (.unreadable error.cause)
  | failed failure _ _ => failure
  | fileAccess => .fileAccess
  | panicked operation => .panic operation

/-- The construct that failed, in short form. -/
def construct? : Fault → Option String
  | failed _ construct _ => some construct.describe
  | unreadable _ _ | fileAccess | panicked _ => none

/-- The bytes that a fault concerns. -/
def span? : Fault → Option Span
  | unreadable error _ => some error.span
  | failed _ construct _ => some construct.span
  | fileAccess | panicked _ => none

/-- The place of a fault. -/
def location? : Fault → Option Location
  | unreadable _ location | failed _ _ location => some location
  | fileAccess | panicked _ => none

/-- What is said about the bytes of a fault. -/
def label (fault : Fault) : String :=
  match fault.construct? with
  | some construct => s!"while evaluating {construct}"
  | none => ""

/-- The wording of a fault. -/
def message (fault : Fault) : String :=
  let what := fault.failure.message
  match fault with
  | unreadable _ location => s!"{what} at {location.render}"
  | failed _ _ location => s!"{what} ({fault.label} at {location.render})"
  | fileAccess | panicked _ => what

end Fault

end ModelWeaver.Document
