/-!
# Runs of code points

A property of characters that holds in long runs of code points is kept as the lengths of the runs.
-/

namespace SessionBroker.Text

/-- Whether code point `n` has a property, given the lengths of runs by turns with and without it,
the first one with it if `first` says so. -/
def inRuns (first : Bool) : Nat → List Nat → Bool
  | _, [] => first
  | n, run :: runs => if n < run then first else inRuns (!first) (n - run) runs

end SessionBroker.Text
