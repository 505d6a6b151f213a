import StyleLex.Text

/-! # Units written behind a number -/
namespace StyleLex

inductive NumberUnit where
  | px | pt | pc | cm | mm | inch
  | em | rem | ex | ch | vw | vh | vmin | vmax
  | deg | rad | grad | turn
  | s | ms | hz | khz
  | dpi | dpcm | dppx
  | percent
  deriving DecidableEq

namespace NumberUnit

def all : List NumberUnit :=
  [.px, .pt, .pc, .cm, .mm, .inch, .em, .rem, .ex, .ch, .vw, .vh, .vmin, .vmax,
    .deg, .rad, .grad, .turn, .s, .ms, .hz, .khz, .dpi, .dpcm, .dppx, .percent]

def suffix : NumberUnit → String
  | .px => "px" | .pt => "pt" | .pc => "pc" | .cm => "cm" | .mm => "mm" | .inch => "in"
  | .em => "em" | .rem => "rem" | .ex => "ex" | .ch => "ch"
  | .vw => "vw" | .vh => "vh" | .vmin => "vmin" | .vmax => "vmax"
  | .deg => "deg" | .rad => "rad" | .grad => "grad" | .turn => "turn"
  | .s => "s" | .ms => "ms" | .hz => "hz" | .khz => "khz"
  | .dpi => "dpi" | .dpcm => "dpcm" | .dppx => "dppx"
  | .percent => "%"

/-- Suffixes are compared without regard to ASCII case. -/
def ofSuffix? (t : Text) : Option NumberUnit :=
  all.find? fun u => u.suffix.toList = t.map Char.toLower

theorem mem_all (u : NumberUnit) : u ∈ all := by cases u <;> decide

theorem suffix_of_ofSuffix? {t : Text} {u : NumberUnit} (h : ofSuffix? t = some u) :
    u.suffix.toList = t.map Char.toLower := by
  simpa using List.find?_some h

theorem ofSuffix?_suffix (u : NumberUnit) : ofSuffix? u.suffix.toList = some u := by
  cases u <;> decide

end NumberUnit

end StyleLex
