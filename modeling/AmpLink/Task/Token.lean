/-!
# Cancellation tokens

Tokens form a forest. Cancelling one cancels it and everything below it, now and later, and nothing
else. A token is the way from its root to it, so what lies below a token can be read off its path.
-/

namespace AmpLink

/-- The numbers of the branches that lead to the token. -/
structure Token where
  path : List Nat
  deriving DecidableEq, Repr

/-- At the place of `ancestor` or below it. -/
def Token.isWithin (t ancestor : Token) : Bool := ancestor.path.isPrefixOf t.path

/-- The tokens that have been cancelled themselves, and how many have been handed out. -/
structure TokenForest where
  issued : Nat
  cancelled : List Token
  deriving Repr

namespace TokenForest

def empty : TokenForest := { issued := 0, cancelled := [] }

/-- A token of its own. -/
def root (f : TokenForest) : Token × TokenForest := (⟨[f.issued]⟩, { f with issued := f.issued + 1 })

/-- A new token right below `parent`. Below a cancelled token it is cancelled from the start. -/
def child (f : TokenForest) (parent : Token) : Token × TokenForest :=
  (⟨parent.path ++ [f.issued]⟩, { f with issued := f.issued + 1 })

def cancel (f : TokenForest) (t : Token) : TokenForest := { f with cancelled := t :: f.cancelled }

/-- Cancelled itself or through a token above it. -/
def isCancelled (f : TokenForest) (t : Token) : Bool := f.cancelled.any t.isWithin

end TokenForest
end AmpLink
