import ContentSchema.Calendar.DateTime
import ContentSchema.Calendar.Rounding

/-! How long ago or ahead a time is, in words. -/
namespace ContentSchema.Calendar

/-- A duration in words, from the shortest class to the longest. -/
inductive Phrase where
  | fewSeconds
  | minute | minutes (n : Int)
  | hour | hours (n : Int)
  | day | days (n : Int)
  | month | months (n : Int)
  | year | years (n : Int)
deriving DecidableEq

def Phrase.text : Phrase → String
  | fewSeconds => "a few seconds"
  | minute => "a minute"
  | minutes n => toString n ++ " minutes"
  | hour => "an hour"
  | hours n => toString n ++ " hours"
  | day => "a day"
  | days n => toString n ++ " days"
  | month => "a month"
  | months n => toString n ++ " months"
  | year => "a year"
  | years n => toString n ++ " years"

/-- The nearest integer, a half going up. -/
def nearestInteger (round : Rounding) (q : Rat) : Int := (round (q + 1 / 2)).floor

/-- The phrase for a duration in milliseconds that is not negative. Each unit is rounded on its
own; four hundred years have 4800 months and 146097 days. -/
def Phrase.ofMilliseconds (round : Rounding) (ms : Rat) : Phrase :=
  let seconds := nearestInteger round (round (ms / 1000))
  let minutes := nearestInteger round (round (ms / 60000))
  let hours := nearestInteger round (round (ms / 3600000))
  let exactDays := round (ms / 86400000)
  let days := nearestInteger round exactDays
  let months := nearestInteger round (round (round (exactDays * 4800) / 146097))
  let years := nearestInteger round (round (round (exactDays * 400) / 146097))
  if seconds < 45 then .fewSeconds
  else if minutes ≤ 1 then .minute
  else if minutes < 45 then .minutes minutes
  else if hours ≤ 1 then .hour
  else if hours < 22 then .hours hours
  else if days ≤ 1 then .day
  else if days < 26 then .days days
  else if months ≤ 1 then .month
  else if months < 11 then .months months
  else if years ≤ 1 then .year
  else .years years

/-- Milliseconds from one time to another, one rounded quotient. -/
def millisecondsFrom (round : Rounding) (start stop : DateTime) : Rat :=
  round (mkRat (stop.instant - start.instant) 1000)

/-- A time as seen from now. The present counts as past. -/
def seenFrom (round : Rounding) (value now : DateTime) : String :=
  let ms := millisecondsFrom round now value
  let text := (Phrase.ofMilliseconds round ms.abs).text
  if 0 < ms then "in " ++ text else text ++ " ago"

end ContentSchema.Calendar
