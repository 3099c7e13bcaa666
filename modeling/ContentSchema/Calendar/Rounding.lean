import ContentSchema.Number.Binary64

/-! How the quotients of date arithmetic are rounded. -/
namespace ContentSchema.Calendar

/-- What is kept of an exact quotient. -/
abbrev Rounding := Rat → Rat

/-- Nothing is lost. -/
def Rounding.exact : Rounding := id

/-- Every result is a binary number of 53 significant bits. -/
def Rounding.binary64 : Rounding := Binary64.round

/-- The integer part, toward zero. -/
def truncate (q : Rat) : Int := q.num.tdiv q.den

end ContentSchema.Calendar
