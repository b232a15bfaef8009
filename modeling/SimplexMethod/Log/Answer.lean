import SimplexMethod.Log.Entry

/-!
# Answers

What a method answers about a program.
-/

namespace SimplexMethod

/-- What a program turned out to be, unless the method gave up, and what was logged on the way. -/
structure Answer (F : Type) where
  result : Except SolveError (Outcome F)
  log : List (Entry F)

end SimplexMethod
