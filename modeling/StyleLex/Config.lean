/-! # Options of a run -/
namespace StyleLex

/-- What becomes of the text inside `#{…}`: it is read as a value, or passed over. -/
inductive InterpolationBody where
  | tokens | skipped
  deriving DecidableEq

structure Config where
  /-- Whether a value must end in `;` even before the `}` of its block. -/
  requireSemicolon : Bool
  interpolation : InterpolationBody
  deriving DecidableEq

namespace Config

def standard : Config := ⟨true, .tokens⟩

instance : Inhabited Config := ⟨standard⟩

def withRequireSemicolon (b : Bool) (c : Config) : Config := { c with requireSemicolon := b }

def withInterpolation (b : InterpolationBody) (c : Config) : Config := { c with interpolation := b }

def lenient : Config := standard.withRequireSemicolon false

inductive Adjustment where
  | standard | lenient
  | requireSemicolon (required : Bool)
  | interpolation (body : InterpolationBody)

namespace Adjustment

def apply : Adjustment → Config → Config
  | .standard, _ => Config.standard
  | .lenient, _ => Config.lenient
  | .requireSemicolon b, c => c.withRequireSemicolon b
  | .interpolation b, c => c.withInterpolation b

/-- The configuration at first, then after each adjustment. -/
def trace : List Adjustment → Config → List Config
  | [], c => [c]
  | a :: as, c => c :: trace as (a.apply c)

end Adjustment

end Config

end StyleLex
