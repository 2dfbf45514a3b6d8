import ResendRouter.Foundation.Machine
import ResendRouter.Foundation.Bytes

/-! # Identifiers, clock values and errors

Clock values are microseconds since the Unix epoch, the resolution of the
database. A sum that leaves the years -9999 to 9999 is a panic of the program.
-/

namespace ResendRouter.Program
open Foundation

abbrev Uuid := BitVec 128

def hexDigit (n : ℕ) : Char := "0123456789abcdef".toList.getD n '0'

def Uuid.digits (u : Uuid) : List Char :=
  (List.range 32).map fun i => hexDigit (u.toNat / 16 ^ (31 - i) % 16)

/-- The textual form in five groups, as the uuid crate prints it. -/
def Uuid.toText (u : Uuid) : String :=
  .ofList (u.digits.take 8 ++ ['-'] ++ (u.digits.drop 8).take 4 ++ ['-'] ++
    (u.digits.drop 12).take 4 ++ ['-'] ++ (u.digits.drop 16).take 4 ++ ['-'] ++ u.digits.drop 20)

/-- Microseconds since the Unix epoch. -/
abbrev Time := ℤ

/-- A span of time in microseconds. -/
abbrev Duration := ℤ

def seconds (n : ℤ) : Duration := n * 1000000

/-- -9999-01-01 00:00:00 UTC. -/
def minTime : Time := seconds (-377705116800)

/-- The last microsecond of the year 9999 UTC. -/
def maxTime : Time := seconds 253402300800 - 1

/-- Date addition; `none` is the panic on a result that is out of range. -/
def addTime (t : Time) (d : Duration) : Option Time :=
  if minTime ≤ t + d ∧ t + d ≤ maxTime then some (t + d) else none

theorem addTime_eq_some {t u : Time} {d : Duration} (h : addTime t d = some u) : u = t + d := by
  simp only [addTime, Option.ite_none_right_eq_some, Option.some.injEq] at h
  exact h.2.symm

def unixTimestamp (t : Time) : ℤ := t / 1000000

/-- The ways in which the database refuses a statement, and a lost connection. -/
inductive DbError where
  | invalidText
  | invalidLimit
  | timestampOutOfRange
  | checkViolation
  | uniqueViolation
  | foreignKeyViolation
  | connection
  deriving DecidableEq

inductive AppError where
  | config (message : String)
  | badRequest (message : String)
  | signature (message : String)
  | database (error : DbError)
  deriving DecidableEq

def AppError.statusCode : AppError → ℕ
  | .config _ => 500
  | .database _ => 500
  | .badRequest _ => 400
  | .signature _ => 400

theorem AppError.le_statusCode (e : AppError) : 400 ≤ e.statusCode := by
  cases e <;> simp [AppError.statusCode]

/-- A call either fails with an error value or unwinds. -/
inductive Failure where
  | error (e : AppError)
  | panic
  deriving DecidableEq

end ResendRouter.Program
